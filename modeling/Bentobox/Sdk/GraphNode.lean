import Bentobox.Engine.Comparison
import Bentobox.Engine.Denotation

/-!
# Graph nodes as Python objects

The operators that a convert function is traced through. `GraphNode` overloads the
arithmetic operators and the comparisons and leaves everything else to Python: an
operator on two objects of which neither is a `GraphNode` is Python's own, and so is
the truth value that `and`, `or` and `not` ask for.

What Python and the protobuf classes do between such objects is the parameter
`Python`. A comparison by `!=` returns the bare message `Node`.
-/
namespace Bentobox.Sdk

/-! ## Objects -/

/-- The native values that `wrap_primitive` knows. -/
inductive Native
  | int (val : ℤ)
  | float (val : BitVec 64)
  | str (val : String)
  | bool (val : Bool)
  deriving DecidableEq, Repr

/-- What an expression of a convert function evaluates to. -/
inductive Object
  | native (val : Native)
  | message (node : Node)
  | graphNode (node : Node)
  deriving DecidableEq, Repr

inductive PythonError
  | typeError | valueError | zeroDivisionError | overflowError | indexError
  | keyError (key : String)
  | nameError (name : String)
  deriving DecidableEq, Repr

/-- `wrap_primitive`; an integer takes 32 bits if it fits, and protobuf refuses more than 64. -/
def wrapPrimitive : Native → Except PythonError Value
  | .int val =>
    if InRange 32 val then .ok (setVal (.number (.int32 (BitVec.ofInt 32 val))))
    else if InRange 64 val then .ok (setVal (.number (.int64 (BitVec.ofInt 64 val))))
    else .error .valueError
  | .float val => .ok (setVal (.number (.float64 val)))
  | .str val => .ok (setVal (.str val))
  | .bool val => .ok (setVal (.bool val))

/-- The node of `GraphNode.wrap`. -/
def Object.wrap : Object → Except PythonError Node
  | native val => Node.const <$> wrapPrimitive val
  | message node => .ok node
  | graphNode node => .ok node

/-- Python's truth value of a native value; both zeros of `float` are false. -/
def Native.truth : Native → Bool
  | int val => val ≠ 0
  | float val => val.setWidth 63 ≠ 0
  | str val => val ≠ ""
  | bool val => val

/-- Python's truth value: neither `GraphNode` nor a message defines one, so they are true. -/
def Object.truth : Object → Bool
  | native val => val.truth
  | message _ => true
  | graphNode _ => true

def Object.isGraphNode : Object → Bool
  | graphNode _ => true
  | _ => false

def Object.isMessage : Object → Bool
  | message _ => true
  | _ => false

/-- No random operation occurs in the node of an object. -/
def Object.randomFree : Object → Bool
  | native _ => true
  | message node | graphNode node => node.randomFree

theorem Object.randomFree_wrap {o : Object} {n : Node} (ho : o.randomFree) (h : o.wrap = .ok n) :
    n.randomFree := by
  cases o with
  | native val =>
    obtain ⟨v, -, rfl⟩ := Fallible.map_eq_ok_iff.mp h
    rfl
  | message node => cases h; exact ho
  | graphNode node => cases h; exact ho

/-! ## Operators -/

/-- The binary arithmetic operators that `GraphNode` overloads. -/
inductive ArithmeticOperator
  | add | sub | mul | truediv | mod
  deriving DecidableEq, Repr

inductive CompareOperator
  | lt | gt | eq | ne | le | ge
  deriving DecidableEq, Repr

/-- The operation that an overload records. -/
def ArithmeticOperator.op : ArithmeticOperator → BinaryOp
  | add => .add
  | sub => .sub
  | mul => .mul
  | truediv => .div
  | mod => .mod

/-- The arithmetic overloads of `GraphNode` with the node on the left. -/
def ArithmeticOperator.overload (self : Node) (other : Object) (op : ArithmeticOperator) :
    Except PythonError Object :=
  (fun other => .graphNode (.binary op.op self other)) <$> other.wrap

/-- The in-place overloads of `GraphNode`. `__imul__` and `__itruediv__` wrap the operand before
they call the overload that wraps it again, and there is no `__imod__`. -/
def ArithmeticOperator.inplaceOverload (self : Node) (other : Object) :
    ArithmeticOperator → Option (Except PythonError Object)
  | add => some (add.overload self other)
  | sub => some (sub.overload self other)
  | mul => some (do
    let other ← other.wrap
    mul.overload self (.graphNode other))
  | truediv => some (do
    let other ← other.wrap
    truediv.overload self (.graphNode other))
  | mod => none

/-- The method that Python tries on the right operand. -/
def CompareOperator.reflected : CompareOperator → CompareOperator
  | lt => gt
  | gt => lt
  | eq => eq
  | ne => ne
  | le => ge
  | ge => le

/-- The boolean overloads of `GraphNode`; `__ne__` does not wrap its node. -/
def CompareOperator.overload (self other : Node) : CompareOperator → Object
  | lt => .graphNode (.binary .lt self other)
  | gt => .graphNode (.binary .lt other self)
  | eq => .graphNode (.binary .eq self other)
  | ne => .message (.unary .not (.binary .eq self other))
  | le => .graphNode (.binary .or (.binary .lt self other) (.binary .eq self other))
  | ge => .graphNode (.binary .or (.binary .lt other self) (.binary .eq self other))

theorem CompareOperator.randomFree_overload (op : CompareOperator) {self other : Node}
    (hself : self.randomFree) (hother : other.randomFree) :
    (op.overload self other).randomFree := by
  cases op <;>
    simp [overload, Object.randomFree, Node.randomFree, hself, hother]

/-- The operators of Python's own types, and the comparisons in which a message takes part. -/
structure Python where
  arithmetic : ArithmeticOperator → Object → Object → Except PythonError Native
  negative : Object → Except PythonError Native
  positive : Object → Except PythonError Native
  compare : CompareOperator → Native → Native → Except PythonError Native
  compareMessage : CompareOperator → Object → Object → Except PythonError Object

/-- Operators that support nothing. -/
instance : Inhabited Python :=
  ⟨⟨fun _ _ _ => .error .typeError, fun _ => .error .typeError, fun _ => .error .typeError,
    fun _ _ _ => .error .typeError, fun _ _ _ => .error .typeError⟩⟩

/-- A string formats what is on the right of `%`, whatever that is. -/
def Object.formats (op : ArithmeticOperator) : Object → Bool
  | native (.str _) => op = .mod
  | _ => false

namespace Python
variable (py : Python)

/-- `x + y` and its like: the overload of a `GraphNode` on the left, or the reflected one of a
`GraphNode` on the right. -/
def arithmeticOp (op : ArithmeticOperator) : Object → Object → Except PythonError Object
  | .graphNode self, other => op.overload self other
  | other, .graphNode self =>
    if other.formats op then .native <$> py.arithmetic op other (.graphNode self)
    else (fun other => .graphNode (.binary op.op other self)) <$> other.wrap
  | x, y => .native <$> py.arithmetic op x y

/-- `x += y` and its like: the in-place overload of a `GraphNode` on the left, if it has one.
Numbers, strings, booleans and messages have none, and the operator itself is taken. -/
def inplaceOp (op : ArithmeticOperator) : Object → Object → Except PythonError Object
  | .graphNode self, other =>
    (op.inplaceOverload self other).getD (py.arithmeticOp op (.graphNode self) other)
  | x, y => py.arithmeticOp op x y

/-- `x < y` and its like. A message is asked for `==` and `!=` before its right operand is. -/
def compareOp (op : CompareOperator) : Object → Object → Except PythonError Object
  | .graphNode self, other => (fun other => op.overload self other) <$> other.wrap
  | .native val, .graphNode self =>
    (fun other => op.reflected.overload self other) <$> (Object.native val).wrap
  | .message node, .graphNode self =>
    match op with
    | .eq | .ne => py.compareMessage op (.message node) (.graphNode self)
    | _ => .ok (op.reflected.overload self node)
  | .native x, .native y => .native <$> py.compare op x y
  | x, y => py.compareMessage op x y

/-- `-x`, recorded as `0 - x`. -/
def negativeOp : Object → Except PythonError Object
  | .graphNode self => .ok (.graphNode (.binary .sub (.const (setVal (.number (.int32 0)))) self))
  | x => .native <$> py.negative x

/-- `+x` -/
def positiveOp : Object → Except PythonError Object
  | .graphNode self => .ok (.graphNode self)
  | x => .native <$> py.positive x

end Python

/-! ## Functions of the plotter -/

/-- The functions of one argument. -/
inductive PlotterUnary
  | abs | floor | ceil | sin | arcsin | cos | arccos | tan | arctan
  deriving DecidableEq, Repr

/-- The functions of two arguments. -/
inductive PlotterBinary
  | max | min | pow | mod
  deriving DecidableEq, Repr

def PlotterUnary.op : PlotterUnary → UnaryOp
  | abs => .abs
  | floor => .floor
  | ceil => .ceil
  | sin => .sin
  | arcsin => .arcsin
  | cos => .cos
  | arccos => .arccos
  | tan => .tan
  | arctan => .arctan

def PlotterBinary.op : PlotterBinary → BinaryOp
  | max => .max
  | min => .min
  | pow => .pow
  | mod => .mod

namespace Plotter

/-- `g.abs` hands the `GraphNode` itself to protobuf, the others hand over its node. -/
def unary (fn : PlotterUnary) (x : Object) : Except PythonError Object :=
  match fn with
  | .abs => .error .typeError
  | fn => (fun x => .graphNode (.unary fn.op x)) <$> x.wrap

def binary (fn : PlotterBinary) (x y : Object) : Except PythonError Object := do
  let x ← x.wrap
  let y ← y.wrap
  pure (.graphNode (.binary fn.op x y))

/-- `x` within two bounds. -/
def clip (x minX maxX : Object) : Except PythonError Object := do
  let lower ← binary .min x maxX
  binary .max lower minX

def switch (condition true_ false_ : Object) : Except PythonError Object := do
  let condition ← condition.wrap
  let true_ ← true_.wrap
  let false_ ← false_.wrap
  pure (.graphNode (.switch condition true_ false_))

def random (low high : Object) : Except PythonError Object := do
  let low ← low.wrap
  let high ← high.wrap
  pure (.graphNode (.random low high))

end Plotter

/-! ## What the operators mean -/

variable (F : FloatOps)

/-- What a comparison says about two values. -/
def CompareOperator.apply (x y : Value) : CompareOperator → Option Value
  | lt => (ltOp F x y).toOption
  | gt => (gtOp F x y).toOption
  | eq => (eqOp F x y).toOption
  | ne => (eqOp F x y).toOption.bind fun v => (notOp v).toOption
  | le => (leOp F x y).toOption
  | ge => (geOp F x y).toOption

/-- The method on the right operand means the same comparison. -/
theorem CompareOperator.apply_reflected (op : CompareOperator) (x y : Value) :
    op.reflected.apply F y x = op.apply F x y := by
  cases op with
  | lt => exact (ltOp_swap F y x).symm
  | gt => exact ltOp_swap F x y
  | eq => exact eqOp_comm F x y
  | ne => simp only [reflected, apply, eqOp_comm F x y]
  | le => simp only [reflected, apply, ← gt_or_eq, ← lt_or_eq, ltOp_swap F y x, eqOp_comm F x y]
  | ge => simp only [reflected, apply, ← gt_or_eq, ← lt_or_eq, ltOp_swap F x y, eqOp_comm F x y]

/-- An object stands for a value, or for none, in a valuation. -/
def Denotes (σ : Valuation) (o : Object) (v : Option Value) : Prop :=
  ∃ n, o.wrap = .ok n ∧ denote F σ n = v

variable {F} {σ : Valuation}

theorem Denotes.unique {o : Object} {v w : Option Value} (hv : Denotes F σ o v)
    (hw : Denotes F σ o w) : v = w := by
  obtain ⟨n, hn, rfl⟩ := hv
  obtain ⟨m, hm, rfl⟩ := hw
  rw [hn] at hm
  cases hm
  rfl

@[simp] theorem denotes_graphNode_iff {n : Node} {v : Option Value} :
    Denotes F σ (.graphNode n) v ↔ denote F σ n = v :=
  ⟨fun ⟨_, hm, hv⟩ => by cases hm; exact hv, fun h => ⟨n, rfl, h⟩⟩

@[simp] theorem denotes_native_iff {val : Native} {v : Value} :
    Denotes F σ (.native val) (some v) ↔ (wrapPrimitive val).toOption = some v := by
  simp only [Denotes, Object.wrap]
  cases wrapPrimitive val with
  | error e => simp [Except.toOption]
  | ok w => simp [denote, Except.toOption]

/-- **The overloads mean the comparison** of their operands. -/
theorem denotes_overload (op : CompareOperator) (self other : Node) :
    Denotes F σ (op.overload self other)
      ((denote F σ self).bind fun v => (denote F σ other).bind fun w => op.apply F v w) := by
  cases op with
  | lt => exact ⟨_, rfl, rfl⟩
  | gt =>
    refine ⟨_, rfl, ?_⟩
    simp only [denote, binaryOp, CompareOperator.apply]
    cases denote F σ self <;> cases denote F σ other <;> simp [ltOp_swap]
  | eq => exact ⟨_, rfl, rfl⟩
  | ne =>
    refine ⟨_, rfl, ?_⟩
    simp only [denote, binaryOp, unaryOp, CompareOperator.apply]
    cases denote F σ self <;> cases denote F σ other <;> rfl
  | le =>
    refine ⟨_, rfl, ?_⟩
    simp only [denote, binaryOp, CompareOperator.apply]
    cases denote F σ self <;> cases denote F σ other <;> simp [← lt_or_eq]
  | ge =>
    refine ⟨_, rfl, ?_⟩
    simp only [denote, binaryOp, CompareOperator.apply]
    cases denote F σ self <;> cases denote F σ other <;> simp [← gt_or_eq, ltOp_swap]

namespace Python
variable {py : Python} {x y o : Object} {v w : Option Value}

/-- `GraphNode` decides an arithmetic operator, by one of its own methods. -/
def arithmeticOverloaded (op : ArithmeticOperator) : Object → Object → Bool
  | .graphNode _, _ => true
  | other, .graphNode _ => !other.formats op
  | _, _ => false

/-- What is recorded for an arithmetic operator that `GraphNode` decides. -/
theorem arithmeticOp_of_overloaded {op : ArithmeticOperator} {n m : Node} (hn : x.wrap = .ok n)
    (hm : y.wrap = .ok m) (hg : arithmeticOverloaded op x y) :
    py.arithmeticOp op x y = .ok (.graphNode (.binary op.op n m)) := by
  cases x with
  | graphNode self =>
    cases hn
    simp only [arithmeticOp, ArithmeticOperator.overload, hm, Fallible.map_ok]
  | native | message =>
    cases y with
    | graphNode self =>
      cases hm
      simp only [arithmeticOverloaded, Bool.not_eq_true'] at hg
      simp only [arithmeticOp, hg, hn, Fallible.map_ok]
      rfl
    | native | message => cases hg

/-- An arithmetic operator records its operation on the nodes of the operands, or it is one of
Python's own. -/
theorem arithmeticOp_cases {op : ArithmeticOperator} (ho : py.arithmeticOp op x y = .ok o) :
    (arithmeticOverloaded op x y = true ∧ ∃ n m, x.wrap = .ok n ∧ y.wrap = .ok m ∧
        o = .graphNode (.binary op.op n m)) ∨
      (arithmeticOverloaded op x y = false ∧ ∃ v, py.arithmetic op x y = .ok v ∧
        o = .native v) := by
  cases x with
  | graphNode self =>
    obtain ⟨m, hm, rfl⟩ := Fallible.map_eq_ok_iff.mp ho
    exact .inl ⟨rfl, self, m, rfl, hm, rfl⟩
  | native | message =>
    cases y with
    | graphNode self =>
      simp only [arithmeticOp] at ho
      split_ifs at ho with hf
      · obtain ⟨v, hv, rfl⟩ := Fallible.map_eq_ok_iff.mp ho
        exact .inr ⟨by simp [arithmeticOverloaded, hf], v, hv, rfl⟩
      · obtain ⟨n, hn, rfl⟩ := Fallible.map_eq_ok_iff.mp ho
        exact .inl ⟨by simp [arithmeticOverloaded, hf], n, self, hn, rfl, rfl⟩
    | native | message =>
      obtain ⟨v, hv, rfl⟩ := Fallible.map_eq_ok_iff.mp ho
      exact .inr ⟨rfl, v, hv, rfl⟩

/-- **In-place overloads** record what the operators do: what is wrapped already is not wrapped
again. -/
theorem inplaceOp_eq_arithmeticOp (op : ArithmeticOperator) (x y : Object) :
    py.inplaceOp op x y = py.arithmeticOp op x y := by
  cases x with
  | native val | message node => rfl
  | graphNode self =>
    cases op with
    | add | sub | mod => rfl
    | mul | truediv =>
      simp only [inplaceOp, ArithmeticOperator.inplaceOverload, Option.getD_some, arithmeticOp,
        ArithmeticOperator.overload]
      cases y.wrap with
      | error e => rfl
      | ok n => rfl

theorem arithmeticOp_denotes {op : ArithmeticOperator} (hx : Denotes F σ x v)
    (hy : Denotes F σ y w) (hg : arithmeticOverloaded op x y)
    (ho : py.arithmeticOp op x y = .ok o) :
    Denotes F σ o (v.bind fun v => w.bind fun w => (binaryOp F op.op v w).toOption) := by
  obtain ⟨n, hn, rfl⟩ := hx
  obtain ⟨m, hm, rfl⟩ := hy
  cases ho.symm.trans (arithmeticOp_of_overloaded hn hm hg)
  exact ⟨_, rfl, rfl⟩

/-- `GraphNode` decides a comparison, by one of its own methods. -/
def compareOverloaded (op : CompareOperator) : Object → Object → Bool
  | .graphNode _, _ => true
  | .native _, .graphNode _ => true
  | .message _, .graphNode _ => op ≠ .eq && op ≠ .ne
  | _, _ => false

theorem arithmeticOp_randomFree {op : ArithmeticOperator} (hx : x.randomFree) (hy : y.randomFree)
    (ho : py.arithmeticOp op x y = .ok o) : o.randomFree := by
  rcases arithmeticOp_cases ho with ⟨-, n, m, hn, hm, rfl⟩ | ⟨-, v, -, rfl⟩
  · exact Bool.and_eq_true_iff.mpr ⟨Object.randomFree_wrap hx hn, Object.randomFree_wrap hy hm⟩
  · rfl

theorem arithmeticOp_isMessage {op : ArithmeticOperator} (ho : py.arithmeticOp op x y = .ok o) :
    o.isMessage = false := by
  rcases arithmeticOp_cases ho with ⟨-, n, m, -, -, rfl⟩ | ⟨-, v, -, rfl⟩ <;> rfl

/-- A comparison that `GraphNode` decides is an overload on the nodes of the operands, of the
left one or of the right one. -/
theorem compareOp_of_overloaded {op : CompareOperator} {n m : Node} (hn : x.wrap = .ok n)
    (hm : y.wrap = .ok m) (hg : compareOverloaded op x y) :
    py.compareOp op x y = .ok (op.overload n m) ∨
      py.compareOp op x y = .ok (op.reflected.overload m n) := by
  cases x with
  | graphNode self =>
    cases hn
    exact .inl (by simp only [compareOp, hm, Fallible.map_ok])
  | native val =>
    cases y with
    | graphNode self =>
      cases hm
      exact .inr (by simp only [compareOp, hn, Fallible.map_ok])
    | native | message => cases hg
  | message node =>
    cases y with
    | graphNode self =>
      cases hm
      cases hn
      cases op with
      | eq | ne => cases hg
      | _ => exact .inr rfl
    | native | message => cases hg

/-- What is recorded for a comparison other than `!=` is a `GraphNode`. -/
theorem compareOp_graphNode {op : CompareOperator} (hop : op ≠ .ne) {n m : Node}
    (hn : x.wrap = .ok n) (hm : y.wrap = .ok m) (hg : compareOverloaded op x y) :
    ∃ k, py.compareOp op x y = .ok (.graphNode k) := by
  rcases compareOp_of_overloaded hn hm hg with h | h <;> rw [h] <;> cases op
  case inl.ne | inr.ne => exact absurd rfl hop
  all_goals exact ⟨_, rfl⟩

theorem compareOp_denotes {op : CompareOperator} (hx : Denotes F σ x v) (hy : Denotes F σ y w)
    (hg : compareOverloaded op x y) (ho : py.compareOp op x y = .ok o) :
    Denotes F σ o (v.bind fun v => w.bind fun w => op.apply F v w) := by
  obtain ⟨n, hn, rfl⟩ := hx
  obtain ⟨m, hm, rfl⟩ := hy
  rcases compareOp_of_overloaded hn hm hg with h | h
  · cases ho.symm.trans h
    exact denotes_overload op n m
  · cases ho.symm.trans h
    obtain ⟨k, hk, hv⟩ := @denotes_overload F σ op.reflected m n
    refine ⟨k, hk, hv.trans ?_⟩
    cases denote F σ n <;> cases denote F σ m <;> simp [CompareOperator.apply_reflected]

theorem negativeOp_denotes (hx : Denotes F σ x v) (hg : x.isGraphNode)
    (ho : py.negativeOp x = .ok o) :
    Denotes F σ o (v.bind fun v => (subOp F (setVal (.number (.int32 0))) v).toOption) := by
  cases x with
  | graphNode self =>
    obtain ⟨n, ⟨⟩, rfl⟩ := hx
    cases ho
    exact ⟨_, rfl, rfl⟩
  | native | message => cases hg

theorem negativeOp_randomFree (hx : x.randomFree) (ho : py.negativeOp x = .ok o) :
    o.randomFree := by
  cases x with
  | graphNode self => cases ho; exact hx
  | native | message =>
    obtain ⟨v, -, rfl⟩ := Fallible.map_eq_ok_iff.mp ho
    rfl

theorem negativeOp_isMessage (ho : py.negativeOp x = .ok o) : o.isMessage = false := by
  cases x with
  | graphNode self => cases ho; rfl
  | native | message =>
    obtain ⟨v, -, rfl⟩ := Fallible.map_eq_ok_iff.mp ho
    rfl

theorem positiveOp_denotes (hx : Denotes F σ x v) (hg : x.isGraphNode)
    (ho : py.positiveOp x = .ok o) : Denotes F σ o v := by
  cases x with
  | graphNode self => cases ho; exact hx
  | native | message => cases hg

theorem positiveOp_randomFree (hx : x.randomFree) (ho : py.positiveOp x = .ok o) :
    o.randomFree := by
  cases x with
  | graphNode self => cases ho; exact hx
  | native | message =>
    obtain ⟨v, -, rfl⟩ := Fallible.map_eq_ok_iff.mp ho
    rfl

theorem positiveOp_isMessage (ho : py.positiveOp x = .ok o) : o.isMessage = false := by
  cases x with
  | graphNode self => cases ho; rfl
  | native | message =>
    obtain ⟨v, -, rfl⟩ := Fallible.map_eq_ok_iff.mp ho
    rfl

/-- A comparison with a message on neither side is a method of `GraphNode` or Python's own. -/
theorem compareOp_cases {op : CompareOperator} (hx : x.isMessage = false)
    (hy : y.isMessage = false) (ho : py.compareOp op x y = .ok o) :
    compareOverloaded op x y = true ∨
      ∃ a b v, x = .native a ∧ y = .native b ∧ py.compare op a b = .ok v ∧ o = .native v := by
  cases x with
  | message => cases hx
  | graphNode => exact .inl rfl
  | native a =>
    cases y with
    | message => cases hy
    | graphNode => exact .inl rfl
    | native b =>
      obtain ⟨v, hv, rfl⟩ := Fallible.map_eq_ok_iff.mp ho
      exact .inr ⟨a, b, v, rfl, rfl, hv, rfl⟩

theorem compareOp_randomFree {op : CompareOperator} (hx : x.randomFree) (hy : y.randomFree)
    (hmx : x.isMessage = false) (hmy : y.isMessage = false) (ho : py.compareOp op x y = .ok o) :
    o.randomFree := by
  cases x with
  | message => cases hmx
  | graphNode self =>
    obtain ⟨m, hm, rfl⟩ := Fallible.map_eq_ok_iff.mp ho
    exact op.randomFree_overload hx (Object.randomFree_wrap hy hm)
  | native a =>
    cases y with
    | message => cases hmy
    | graphNode self =>
      obtain ⟨n, hn, rfl⟩ := Fallible.map_eq_ok_iff.mp ho
      exact op.reflected.randomFree_overload hy (Object.randomFree_wrap rfl hn)
    | native b =>
      obtain ⟨v, -, rfl⟩ := Fallible.map_eq_ok_iff.mp ho
      rfl

end Python

namespace Plotter
variable {x y c o : Object} {u v w : Option Value}

theorem unary_denotes {fn : PlotterUnary} (hx : Denotes F σ x v) (ho : unary fn x = .ok o) :
    Denotes F σ o (v.bind fun v => (unaryOp F fn.op v).toOption) := by
  obtain ⟨n, hn, rfl⟩ := hx
  cases fn with
  | abs => cases ho
  | _ =>
    simp only [unary, hn, Fallible.map_ok, Except.ok.injEq] at ho
    subst ho
    exact ⟨_, rfl, rfl⟩

theorem binary_denotes {fn : PlotterBinary} (hx : Denotes F σ x v) (hy : Denotes F σ y w)
    (ho : binary fn x y = .ok o) :
    Denotes F σ o (v.bind fun v => w.bind fun w => (binaryOp F fn.op v w).toOption) := by
  obtain ⟨n, hn, rfl⟩ := hx
  obtain ⟨m, hm, rfl⟩ := hy
  simp only [binary, hn, hm, Fallible.ok_bind] at ho
  cases ho
  exact ⟨_, rfl, rfl⟩

theorem switch_denotes (hc : Denotes F σ c u) (hx : Denotes F σ x v) (hy : Denotes F σ y w)
    (ho : switch c x y = .ok o) : Denotes F σ o (u.bind fun b => select b v w) := by
  obtain ⟨k, hk, rfl⟩ := hc
  obtain ⟨n, hn, rfl⟩ := hx
  obtain ⟨m, hm, rfl⟩ := hy
  simp only [switch, hk, hn, hm, Fallible.ok_bind] at ho
  cases ho
  exact ⟨_, rfl, rfl⟩

theorem random_denotes (ho : random x y = .ok o) : Denotes F σ o none := by
  obtain ⟨n, -, hn⟩ := Fallible.result_bind_eq_ok_iff.mp ho
  obtain ⟨m, -, hm⟩ := Fallible.result_bind_eq_ok_iff.mp hn
  cases hm
  exact ⟨_, rfl, rfl⟩

end Plotter
end Bentobox.Sdk
