import Bentobox.Sdk.Expression
import Bentobox.Sdk.Lowering

/-!
# Tracing is a homomorphism

For an expression over constants and attribute reads, `evaluate` applies the engine's
operations to the evaluations of the operands, random draws included. `object` is what the run
of Python comes to. It comes to a `GraphNode` that evaluates alike, at every subexpression, for
the expressions without `abs`, `!=` and a few constants (`traceable`).
-/
namespace Bentobox.Sdk

open AttributeStore

variable (F : FloatOps) {S : Type} [AttributeStore S]

/-! ## The operations on evaluated operands -/

/-- An operation of the engine on two operands that are evaluated in order. -/
def evaluateBinary (op : BinaryOp) (x y : Eval S Value) : Eval S Value := do
  let v ← x
  let w ← y
  Fallible.ofExcept (binaryOp F op v w)

/-- The comparisons out of `Lt`, `Eq`, `Or` and `Not`. -/
def CompareOperator.evaluate (x y : Eval S Value) : CompareOperator → Eval S Value
  | lt => evaluateBinary F .lt x y
  | gt => evaluateBinary F .lt y x
  | eq => evaluateBinary F .eq x y
  | ne => do
    let e ← evaluateBinary F .eq x y
    Fallible.ofExcept (unaryOp F .not e)
  | le => evaluateBinary F .or (evaluateBinary F .lt x y) (evaluateBinary F .eq x y)
  | ge => evaluateBinary F .or (evaluateBinary F .lt y x) (evaluateBinary F .eq x y)

namespace Expr
variable {L : Type}

/-- The value of an expression in a state, and the draws that it takes. -/
def evaluate : Expr AttributeRef → Eval S Value
  | const val => Fallible.ofExcept ((wrapPrimitive val).mapError fun _ => .undefined)
  | leaf ref => onStore (retrieve ref)
  | arithmetic op x y => evaluateBinary F op.op x.evaluate y.evaluate
  | negative x => evaluateBinary F .sub (pure (setVal (.number (.int32 0)))) x.evaluate
  | positive x => x.evaluate
  | compare op x y => op.evaluate F x.evaluate y.evaluate
  | unary fn x => do
    let v ← x.evaluate
    Fallible.ofExcept (unaryOp F fn.op v)
  | binary fn x y => evaluateBinary F fn.op x.evaluate y.evaluate
  | switch c x y | ternary c x y => do
    let condition ← c.evaluate
    choose condition x.evaluate y.evaluate
  | random low high => do
    let low ← low.evaluate
    let high ← high.evaluate
    onGenerator (randomOp F low high)
  -- not overloaded, Python decides them
  | and _ _ | or _ _ | not _ => Fallible.raise .undefined

/-- `g.clip(x, min_x, max_x)` -/
def clip (x minX maxX : Expr L) : Expr L := .binary .max (.binary .min x maxX) minX

/-! ## The expressions -/

def isConst : Expr L → Bool
  | const _ => true
  | _ => false

/-- A string constant. -/
def isStr : Expr L → Bool
  | const (.str _) => true
  | _ => false

/-- Built with the operators of `GraphNode`, which need an operand that is not a constant, and
with the functions of the plotter. -/
def overGraphNodes : Expr L → Bool
  | const _ | leaf _ => true
  | arithmetic _ x y | compare _ x y =>
    x.overGraphNodes && y.overGraphNodes && !(x.isConst && y.isConst)
  | negative x | positive x => x.overGraphNodes && !x.isConst
  | unary _ x => x.overGraphNodes
  | binary _ x y | random x y => x.overGraphNodes && y.overGraphNodes
  | switch c x y => c.overGraphNodes && x.overGraphNodes && y.overGraphNodes
  | and _ _ | or _ _ | not _ | ternary _ _ _ => false

/-- The constants fit, `abs` and `!=` do not occur, and no string is on the left of `%`. -/
def traceable : Expr L → Bool
  | const val => (wrapPrimitive val).isOk
  | leaf _ => true
  | arithmetic op x y => x.traceable && y.traceable && !(op = .mod && x.isStr)
  | compare op x y => x.traceable && y.traceable && op ≠ .ne
  | negative x | positive x | not x => x.traceable
  | unary fn x => x.traceable && fn ≠ .abs
  | binary _ x y | random x y | and x y | or x y => x.traceable && y.traceable
  | switch c x y | ternary c x y => c.traceable && x.traceable && y.traceable

/-- `P` of the expression and of every expression in it. -/
def All (P : Expr L → Prop) : Expr L → Prop
  | const val => P (const val)
  | leaf l => P (leaf l)
  | arithmetic op x y => P (arithmetic op x y) ∧ x.All P ∧ y.All P
  | negative x => P (negative x) ∧ x.All P
  | positive x => P (positive x) ∧ x.All P
  | compare op x y => P (compare op x y) ∧ x.All P ∧ y.All P
  | and x y => P (and x y) ∧ x.All P ∧ y.All P
  | or x y => P (or x y) ∧ x.All P ∧ y.All P
  | not x => P (not x) ∧ x.All P
  | unary fn x => P (unary fn x) ∧ x.All P
  | binary fn x y => P (binary fn x y) ∧ x.All P ∧ y.All P
  | switch c x y => P (switch c x y) ∧ c.All P ∧ x.All P ∧ y.All P
  | ternary c x y => P (ternary c x y) ∧ c.All P ∧ x.All P ∧ y.All P
  | random x y => P (random x y) ∧ x.All P ∧ y.All P

theorem All.root {P : Expr L → Prop} {e : Expr L} (h : e.All P) : P e := by
  cases e with
  | const | leaf => exact h
  | _ => exact h.1

end Expr

/-! ## What is recorded evaluates alike -/

section Alike
variable {F} {x x' y y' : Eval S Value}

omit [AttributeStore S] in
theorem evaluateBinary_alike (op : BinaryOp) (hx : Fallible.Alike x x')
    (hy : Fallible.Alike y y') :
    Fallible.Alike (evaluateBinary F op x y) (evaluateBinary F op x' y') :=
  hx.bind fun _ => hy.bind fun _ => .refl _

omit [AttributeStore S] in
theorem CompareOperator.evaluate_alike (op : CompareOperator) (hx : Fallible.Alike x x')
    (hy : Fallible.Alike y y') : Fallible.Alike (op.evaluate F x y) (op.evaluate F x' y') := by
  have hlt := @evaluateBinary_alike F S x x' y y' .lt hx hy
  have hgt := @evaluateBinary_alike F S y y' x x' .lt hy hx
  have heq := @evaluateBinary_alike F S x x' y y' .eq hx hy
  cases op with
  | lt => exact hlt
  | gt => exact hgt
  | eq => exact heq
  | ne => exact heq.bind fun _ => .refl _
  | le => exact evaluateBinary_alike .or hlt heq
  | ge => exact evaluateBinary_alike .or hgt heq

omit [AttributeStore S] in
/-- With a constant on the left the method on the right operand records the same comparison. -/
theorem CompareOperator.evaluate_reflected (op : CompareOperator) (v : Value) (y : Eval S Value) :
    Fallible.Alike (op.reflected.evaluate F y (pure v)) (op.evaluate F (pure v) y) := by
  have heq : Fallible.Alike (evaluateBinary F .eq y (pure v)) (evaluateBinary F .eq (pure v) y) :=
    (Fallible.Alike.refl y).bind fun w => .ofExcept (eqOp_comm F v w)
  cases op with
  | lt | gt => exact .refl _
  | eq => exact heq
  | ne => exact heq.bind fun _ => .refl _
  | le | ge => exact evaluateBinary_alike .or (.refl _) heq

omit [AttributeStore S] in
theorem choose_alike (v : Value) (hx : Fallible.Alike x x') (hy : Fallible.Alike y y') :
    Fallible.Alike (choose v x y) (choose v x' y') := by
  unfold choose
  split
  · exact hx
  · exact hy
  · exact .refl _

end Alike

/-- The node of a comparison evaluates as the comparison of its operands. -/
theorem CompareOperator.evaluateNode_overload (op : CompareOperator) (self other : Node) :
    ∃ k, (op.overload self other).wrap = .ok k ∧
      (op ≠ .ne → op.overload self other = .graphNode k) ∧
      (evaluateNode F k : Eval S Value) =
        op.evaluate F (evaluateNode F self) (evaluateNode F other) := by
  cases op with
  | ne => exact ⟨_, rfl, fun h => absurd rfl h, rfl⟩
  | _ => exact ⟨_, rfl, fun _ => rfl, rfl⟩

namespace Expr

/-- The object at an attribute. -/
def retrieved (ref : AttributeRef) : Except PythonError Object := .ok (.graphNode (.retrieve ref))

/-- The expression is traced to the node, wrapped in a `GraphNode` unless it is a constant, and
the node evaluates as the expression does. -/
structure TracedTo (py : Python) (e : Expr AttributeRef) (n : Node) : Prop where
  object : ∃ o, e.object py retrieved = .ok o ∧ o.wrap = .ok n ∧
    (e.isConst = false → o = .graphNode n)
  alike : Fallible.Alike (evaluateNode F n : Eval Stores Value) (e.evaluate F)
  denotes : ∀ σ, denote F σ n = e.eval F σ

namespace TracedTo
variable {F} {py : Python} {c x y : Expr AttributeRef} {k n m : Node}

theorem const {val : Native} {v : Value} (h : wrapPrimitive val = .ok v) :
    TracedTo F py (.const val) (.const v) := by
  refine ⟨⟨.native val, rfl, by rw [Object.wrap, h]; rfl, fun h => by cases h⟩, ?_, ?_⟩
  · rw [evaluate, h]
    exact .refl _
  · intro σ
    rw [eval, h]
    rfl

theorem leaf (ref : AttributeRef) : TracedTo F py (.leaf ref) (.retrieve ref) :=
  ⟨⟨_, rfl, rfl, fun _ => rfl⟩, .refl _, fun _ => rfl⟩

/-- A constant is traced to itself. -/
theorem eq_native (hx : TracedTo F py x n) (hc : x.isConst = true) :
    ∃ val v, x = .const val ∧ wrapPrimitive val = .ok v ∧ n = .const v := by
  cases x with
  | const val =>
    obtain ⟨o, ho, hn, -⟩ := hx.object
    cases ho
    obtain ⟨v, hv, rfl⟩ := Fallible.map_eq_ok_iff.mp hn
    exact ⟨val, v, rfl, hv, rfl⟩
  | _ => cases hc

theorem arithmetic {op : ArithmeticOperator} (hx : TracedTo F py x n) (hy : TracedTo F py y m)
    (hc : (x.isConst && y.isConst) = false) (hs : (op = .mod && x.isStr) = false) :
    TracedTo F py (.arithmetic op x y) (.binary op.op n m) := by
  obtain ⟨a, ha, hna, hga⟩ := hx.object
  obtain ⟨b, hb, hmb, hgb⟩ := hy.object
  have hg : Python.arithmeticOverloaded op a b = true := by
    cases hcx : x.isConst with
    | false =>
      rw [hga hcx]
      rfl
    | true =>
      obtain ⟨val, v, rfl, -, -⟩ := hx.eq_native hcx
      cases ha
      rw [hgb (by simpa [hcx] using hc)]
      cases val <;> simp_all [Python.arithmeticOverloaded, Object.formats, isStr]
  have ho := @Python.arithmeticOp_of_overloaded py a b op n m hna hmb hg
  refine ⟨⟨_, (object_arithmetic op ha hb).trans ho, rfl, fun _ => rfl⟩,
    evaluateBinary_alike op.op hx.alike hy.alike, ?_⟩
  intro σ
  rw [eval, ← hx.denotes σ, ← hy.denotes σ]
  rfl

theorem negative (hx : TracedTo F py x n) (hc : x.isConst = false) :
    TracedTo F py (.negative x) (.binary .sub (.const (setVal (.number (.int32 0)))) n) := by
  obtain ⟨a, ha, -, hga⟩ := hx.object
  obtain rfl := hga hc
  refine ⟨⟨_, object_negative ha, rfl, fun _ => rfl⟩,
    evaluateBinary_alike .sub (.refl _) hx.alike, ?_⟩
  intro σ
  rw [eval, ← hx.denotes σ]
  rfl

theorem positive (hx : TracedTo F py x n) (hc : x.isConst = false) :
    TracedTo F py (.positive x) n := by
  obtain ⟨a, ha, -, hga⟩ := hx.object
  obtain rfl := hga hc
  exact ⟨⟨_, object_positive ha, rfl, fun _ => rfl⟩, hx.alike, hx.denotes⟩

/-- A comparison is recorded by the method of its left operand, or by the reflected method of
its right operand when the left one is a constant. -/
theorem compare {op : CompareOperator} (hx : TracedTo F py x n) (hy : TracedTo F py y m)
    (hc : (x.isConst && y.isConst) = false) (hne : op ≠ .ne) :
    ∃ k, TracedTo F py (.compare op x y) k := by
  obtain ⟨a, ha, hna, hga⟩ := hx.object
  obtain ⟨b, hb, hmb, hgb⟩ := hy.object
  have hobject := object_compare op ha hb
  have hover : ∃ k, py.compareOp op a b = .ok (.graphNode k) ∧
      Python.compareOverloaded op a b = true ∧ Fallible.Alike (evaluateNode F k)
        (op.evaluate F (evaluateNode F n : Eval Stores Value) (evaluateNode F m)) := by
    cases hcx : x.isConst with
    | false =>
      obtain rfl := hga hcx
      obtain ⟨k, hk, hgk, heval⟩ := op.evaluateNode_overload F n m (S := Stores)
      refine ⟨k, ?_, rfl, heval ▸ .refl _⟩
      simp only [Python.compareOp, hmb, Fallible.map_ok, hgk hne]
    | true =>
      obtain ⟨val, v, rfl, hv, rfl⟩ := hx.eq_native hcx
      cases ha
      obtain rfl := hgb (by simpa [hcx] using hc)
      obtain ⟨k, hk, hgk, heval⟩ := op.reflected.evaluateNode_overload F m (.const v) (S := Stores)
      have hne' : op.reflected ≠ .ne := by cases op <;> simp_all [CompareOperator.reflected]
      refine ⟨k, ?_, rfl, ?_⟩
      · simp only [Python.compareOp, hna, Fallible.map_ok, hgk hne']
      · rw [heval]
        exact op.evaluate_reflected v _
  obtain ⟨k, ho, hg, halike⟩ := hover
  refine ⟨k, ⟨_, hobject.trans ho, rfl, fun _ => rfl⟩, ?_, ?_⟩
  · exact halike.trans (op.evaluate_alike hx.alike hy.alike)
  · intro σ
    exact denotes_graphNode_iff.mp
      (Python.compareOp_denotes ⟨n, hna, hx.denotes σ⟩ ⟨m, hmb, hy.denotes σ⟩ hg ho)

theorem unary {fn : PlotterUnary} (hx : TracedTo F py x n) (hfn : fn ≠ .abs) :
    TracedTo F py (.unary fn x) (.unary fn.op n) := by
  obtain ⟨a, ha, hna, -⟩ := hx.object
  refine ⟨⟨_, ?_, rfl, fun _ => rfl⟩, hx.alike.bind fun _ => .refl _, ?_⟩
  · rw [object_unary fn ha]
    cases fn with
    | abs => exact absurd rfl hfn
    | _ => simp only [Plotter.unary, hna, Fallible.map_ok]
  · intro σ
    rw [eval, ← hx.denotes σ]
    rfl

theorem binary (fn : PlotterBinary) (hx : TracedTo F py x n) (hy : TracedTo F py y m) :
    TracedTo F py (.binary fn x y) (.binary fn.op n m) := by
  obtain ⟨a, ha, hna, -⟩ := hx.object
  obtain ⟨b, hb, hmb, -⟩ := hy.object
  refine ⟨⟨_, ?_, rfl, fun _ => rfl⟩, evaluateBinary_alike fn.op hx.alike hy.alike, ?_⟩
  · simp only [object_binary fn ha hb, Fallible.ok_bind, Plotter.binary, hna, hmb]
    rfl
  · intro σ
    rw [eval, ← hx.denotes σ, ← hy.denotes σ]
    rfl

theorem switch (hc : TracedTo F py c k) (hx : TracedTo F py x n) (hy : TracedTo F py y m) :
    TracedTo F py (.switch c x y) (.switch k n m) := by
  obtain ⟨d, hd, hkd, -⟩ := hc.object
  obtain ⟨a, ha, hna, -⟩ := hx.object
  obtain ⟨b, hb, hmb, -⟩ := hy.object
  refine ⟨⟨_, ?_, rfl, fun _ => rfl⟩,
    hc.alike.bind fun v => choose_alike v hx.alike hy.alike, ?_⟩
  · simp only [object_switch hd ha hb, Fallible.ok_bind, Plotter.switch, hkd, hna, hmb]
    rfl
  · intro σ
    rw [eval, ← hc.denotes σ, ← hx.denotes σ, ← hy.denotes σ]
    rfl

theorem random (hx : TracedTo F py x n) (hy : TracedTo F py y m) :
    TracedTo F py (.random x y) (.random n m) := by
  obtain ⟨a, ha, hna, -⟩ := hx.object
  obtain ⟨b, hb, hmb, -⟩ := hy.object
  refine ⟨⟨_, ?_, rfl, fun _ => rfl⟩,
    hx.alike.bind fun _ => hy.alike.bind fun _ => .refl _, fun σ => rfl⟩
  simp only [object_random ha hb, Fallible.ok_bind, Plotter.random, hna, hmb]
  rfl

end TracedTo

variable {F} {py : Python}

/-- **A traceable expression is traced** to a node that evaluates as it does. -/
theorem traced_of_traceable {e : Expr AttributeRef} (he : e.overGraphNodes)
    (ht : e.traceable) : ∃ n, TracedTo F py e n := by
  induction e with
  | const val =>
    rw [traceable] at ht
    cases h : wrapPrimitive val with
    | ok v => exact ⟨_, .const h⟩
    | error e => rw [h] at ht; cases ht
  | leaf ref => exact ⟨_, .leaf ref⟩
  | arithmetic op x y hx hy =>
    simp only [overGraphNodes, traceable, Bool.and_eq_true, Bool.not_eq_true'] at he ht
    obtain ⟨n, hn⟩ := hx he.1.1 ht.1.1
    obtain ⟨m, hm⟩ := hy he.1.2 ht.1.2
    exact ⟨_, hn.arithmetic hm he.2 ht.2⟩
  | negative x hx =>
    simp only [overGraphNodes, traceable, Bool.and_eq_true, Bool.not_eq_true'] at he ht
    obtain ⟨n, hn⟩ := hx he.1 ht
    exact ⟨_, hn.negative he.2⟩
  | positive x hx =>
    simp only [overGraphNodes, traceable, Bool.and_eq_true, Bool.not_eq_true'] at he ht
    obtain ⟨n, hn⟩ := hx he.1 ht
    exact ⟨_, hn.positive he.2⟩
  | compare op x y hx hy =>
    simp only [overGraphNodes, traceable, Bool.and_eq_true, Bool.not_eq_true',
      decide_eq_true_eq] at he ht
    obtain ⟨n, hn⟩ := hx he.1.1 ht.1.1
    obtain ⟨m, hm⟩ := hy he.1.2 ht.1.2
    exact hn.compare hm he.2 ht.2
  | unary fn x hx =>
    simp only [overGraphNodes, traceable, Bool.and_eq_true, decide_eq_true_eq] at he ht
    obtain ⟨n, hn⟩ := hx he ht.1
    exact ⟨_, hn.unary ht.2⟩
  | binary fn x y hx hy =>
    simp only [overGraphNodes, traceable, Bool.and_eq_true] at he ht
    obtain ⟨n, hn⟩ := hx he.1 ht.1
    obtain ⟨m, hm⟩ := hy he.2 ht.2
    exact ⟨_, hn.binary fn hm⟩
  | switch c x y hc hx hy =>
    simp only [overGraphNodes, traceable, Bool.and_eq_true] at he ht
    obtain ⟨k, hk⟩ := hc he.1.1 ht.1.1
    obtain ⟨n, hn⟩ := hx he.1.2 ht.1.2
    obtain ⟨m, hm⟩ := hy he.2 ht.2
    exact ⟨_, hk.switch hn hm⟩
  | random x y hx hy =>
    simp only [overGraphNodes, traceable, Bool.and_eq_true] at he ht
    obtain ⟨n, hn⟩ := hx he.1 ht.1
    obtain ⟨m, hm⟩ := hy he.2 ht.2
    exact ⟨_, hn.random hm⟩
  | and | or | not | ternary => cases he

/-- The function `clip` is its two functions, for arguments that are traced in another order. -/
theorem object_clip (obj : L → Except PythonError Object) (x minX maxX : Expr L) :
    ((clip x minX maxX).object py obj).toOption =
      (do
        let x ← x.object py obj
        let minX ← minX.object py obj
        let maxX ← maxX.object py obj
        Plotter.clip x minX maxX).toOption := by
  simp only [clip, Expr.object, trace, Plotter.clip]
  cases x.trace py id obj with
  | error e => rfl
  | ok a =>
    cases minX.trace py id obj with
    | error e =>
      cases maxX.trace py id obj with
      | error e' => rfl
      | ok c => cases h : Plotter.binary .min a c <;> simp [h, Except.toOption]
    | ok b => cases maxX.trace py id obj <;> rfl

/-! ## Which expressions are traced -/

/-- The expression comes to a `GraphNode`, or is a constant. The node has in every state the
value that the operations give on the evaluations of the operands, and the same draws are taken.
Where it takes none the comparisons are the engine's own. -/
def Preserved (F : FloatOps) (py : Python) (e : Expr AttributeRef) : Prop :=
  ∃ o n, e.object py retrieved = .ok o ∧ o.wrap = .ok n ∧
    (e.isConst = false → o = .graphNode n) ∧
    Fallible.Alike (evaluateNode F n : Eval Stores Value) (e.evaluate F) ∧
    (n.randomFree → ∀ s : Env Stores, s.store.Wf →
      (evaluateNode F n s).1.toOption = e.eval F s.store.valuation)

theorem TracedTo.preserved {e : Expr AttributeRef} {n : Node} (h : TracedTo F py e n) :
    e.Preserved F py := by
  obtain ⟨o, ho, hn, hg⟩ := h.object
  refine ⟨o, n, ho, hn, hg, h.alike, fun hfree s hs => ?_⟩
  rw [Stores.evaluateNode_denote F hfree hs, h.denotes]

theorem preserved_of_traceable {e : Expr AttributeRef} (he : e.overGraphNodes)
    (ht : e.traceable) : e.Preserved F py := by
  obtain ⟨n, hn⟩ := @traced_of_traceable F py e he ht
  exact hn.preserved

/-- The object of an expression that is not a constant. -/
theorem Preserved.object {e : Expr AttributeRef} (h : e.Preserved F py)
    (hc : e.isConst = false) : ∃ n, e.object py retrieved = .ok (.graphNode n) := by
  obtain ⟨o, n, ho, -, hg, -⟩ := h
  exact ⟨n, by rw [ho, hg hc]⟩

/-- Python formats a string with what is on the right of `%`. -/
theorem not_preserved_formats {x y : Expr AttributeRef} (hs : x.isStr)
    (hy : y.Preserved F py) (hc : y.isConst = false) :
    ¬ (arithmetic .mod x y).Preserved F py := by
  intro h
  obtain ⟨m, hm⟩ := hy.object hc
  obtain ⟨n, hn⟩ := h.object rfl
  obtain ⟨a, ha, hrest⟩ := Fallible.result_bind_eq_ok_iff.mp hn
  obtain ⟨b, hb, hop⟩ := Fallible.result_bind_eq_ok_iff.mp hrest
  cases hb.symm.trans hm
  rcases x with ⟨_ | _ | val | _⟩ | _ <;> cases hs
  cases ha
  obtain ⟨v, -, hv⟩ := Fallible.map_eq_ok_iff.mp (show _ <$> _ = _ from hop)
  cases hv

/-- `!=` gives a bare message. -/
theorem not_preserved_ne {x y : Expr AttributeRef} (hx : x.Preserved F py)
    (hy : y.Preserved F py) (hc : (x.isConst && y.isConst) = false) :
    ¬ (compare .ne x y).Preserved F py := by
  intro h
  obtain ⟨n, hn⟩ := h.object rfl
  obtain ⟨a, ha, hrest⟩ := Fallible.result_bind_eq_ok_iff.mp hn
  obtain ⟨b, hb, hop⟩ := Fallible.result_bind_eq_ok_iff.mp hrest
  cases hcx : x.isConst with
  | false =>
    obtain ⟨k, hk⟩ := hx.object hcx
    cases ha.symm.trans hk
    obtain ⟨m, -, hm⟩ := Fallible.map_eq_ok_iff.mp (show _ <$> _ = _ from hop)
    cases hm
  | true =>
    obtain ⟨k, hk⟩ := hy.object (by simpa [hcx] using hc)
    cases hb.symm.trans hk
    cases x with
    | const val =>
      cases ha
      obtain ⟨m, -, hm⟩ := Fallible.map_eq_ok_iff.mp (show _ <$> _ = _ from hop)
      cases hm
    | _ => cases hcx

/-- `g.abs` stops with a `TypeError`. -/
theorem not_preserved_abs (x : Expr AttributeRef) : ¬ (unary .abs x).Preserved F py := by
  intro h
  obtain ⟨n, hn⟩ := h.object rfl
  obtain ⟨a, -, hop⟩ := Fallible.result_bind_eq_ok_iff.mp hn
  cases hop

/-- The parts of a traceable expression are traceable. -/
theorem all_preserved_of_traceable {e : Expr AttributeRef} (he : e.overGraphNodes)
    (ht : e.traceable) : e.All (Preserved F py) := by
  have hroot : e.Preserved F py := preserved_of_traceable he ht
  induction e with
  | const val => exact hroot
  | leaf ref => exact hroot
  | arithmetic op x y hx hy | compare op x y hx hy =>
    simp only [overGraphNodes, traceable, Bool.and_eq_true] at he ht
    exact ⟨hroot, hx he.1.1 ht.1.1 (preserved_of_traceable he.1.1 ht.1.1),
      hy he.1.2 ht.1.2 (preserved_of_traceable he.1.2 ht.1.2)⟩
  | negative x hx | positive x hx =>
    simp only [overGraphNodes, traceable, Bool.and_eq_true] at he ht
    exact ⟨hroot, hx he.1 ht (preserved_of_traceable he.1 ht)⟩
  | unary fn x hx =>
    simp only [overGraphNodes, traceable, Bool.and_eq_true] at he ht
    exact ⟨hroot, hx he ht.1 (preserved_of_traceable he ht.1)⟩
  | binary fn x y hx hy | random x y hx hy =>
    simp only [overGraphNodes, traceable, Bool.and_eq_true] at he ht
    exact ⟨hroot, hx he.1 ht.1 (preserved_of_traceable he.1 ht.1),
      hy he.2 ht.2 (preserved_of_traceable he.2 ht.2)⟩
  | switch c x y hc hx hy =>
    simp only [overGraphNodes, traceable, Bool.and_eq_true] at he ht
    exact ⟨hroot, hc he.1.1 ht.1.1 (preserved_of_traceable he.1.1 ht.1.1),
      hx he.1.2 ht.1.2 (preserved_of_traceable he.1.2 ht.1.2),
      hy he.2 ht.2 (preserved_of_traceable he.2 ht.2)⟩
  | and | or | not | ternary => cases he

/-- An expression whose parts are all traced to the nodes of their operations is traceable. -/
theorem traceable_of_all_preserved {e : Expr AttributeRef} (he : e.overGraphNodes)
    (h : e.All (Preserved F py)) : e.traceable := by
  induction e with
  | const val =>
    obtain ⟨o, n, ho, hn, -⟩ := h
    cases ho
    obtain ⟨v, hv, -⟩ := Fallible.map_eq_ok_iff.mp hn
    rw [traceable, hv]
    rfl
  | leaf ref => rfl
  | arithmetic op x y hx hy =>
    simp only [overGraphNodes, Bool.and_eq_true, Bool.not_eq_true'] at he
    obtain ⟨hroot, hpx, hpy⟩ := h
    have hs : (op = .mod && x.isStr) = false := by
      cases hop : (decide (op = .mod) && x.isStr) with
      | false => rfl
      | true =>
        simp only [Bool.and_eq_true, decide_eq_true_eq] at hop
        obtain ⟨rfl, hstr⟩ := hop
        have hcx : x.isConst = true := by cases x <;> simp_all [isStr, isConst]
        have hcy : y.isConst = false := by simpa [hcx] using he.2
        exact absurd hroot (not_preserved_formats hstr hpy.root hcy)
    simp [traceable, hx he.1.1 hpx, hy he.1.2 hpy, hs]
  | compare op x y hx hy =>
    simp only [overGraphNodes, Bool.and_eq_true, Bool.not_eq_true'] at he
    obtain ⟨hroot, hpx, hpy⟩ := h
    have hne : op ≠ .ne := by
      rintro rfl
      exact not_preserved_ne hpx.root hpy.root he.2 hroot
    simp [traceable, hx he.1.1 hpx, hy he.1.2 hpy, hne]
  | unary fn x hx =>
    have hfn : fn ≠ .abs := by
      rintro rfl
      exact not_preserved_abs x h.1
    simp [traceable, hx he h.2, hfn]
  | negative x hx | positive x hx =>
    simp only [overGraphNodes, Bool.and_eq_true] at he
    exact hx he.1 h.2
  | binary _ x y hx hy | random x y hx hy =>
    simp only [overGraphNodes, Bool.and_eq_true] at he
    simp [traceable, hx he.1 h.2.1, hy he.2 h.2.2]
  | switch c x y hc hx hy =>
    simp only [overGraphNodes, Bool.and_eq_true] at he
    simp [traceable, hc he.1.1 h.2.1, hx he.1.2 h.2.2.1, hy he.2 h.2.2.2]
  | and | or | not | ternary => cases he

/-- **Where tracing is a homomorphism.** Every subexpression of an expression built with the
operators of `GraphNode` and the functions of the plotter is traced to the node of its operation
exactly when the constants fit, `abs` and `!=` do not occur, and no string is on the left of `%`. -/
theorem preserved_iff_traceable {e : Expr AttributeRef} (he : e.overGraphNodes) :
    e.All (Preserved F py) ↔ e.traceable :=
  ⟨traceable_of_all_preserved he, all_preserved_of_traceable he⟩

/-- `3 <= clip(x, 0, 9)` -/
theorem preserved_iff_traceable_clip :
    (Expr.compare .le (.const (.int 3)) (clip (.leaf ⟨1, "c", "a"⟩) (.const (.int 0))
      (.const (.int 9)))).All (Preserved default default) :=
  (preserved_iff_traceable (by decide)).mpr (by decide)

/-- `g.abs(x)` raises an error. -/
theorem abs_not_preserved : ¬ ∀ (F : FloatOps) (py : Python) (e : Expr AttributeRef),
    e.overGraphNodes → e.Preserved F py := by
  intro h
  obtain ⟨o, n, ho, -⟩ := h default default (.unary .abs (.leaf ⟨1, "c", "a"⟩)) rfl
  cases ho

end Expr
end Bentobox.Sdk
