import Bentobox.Lib.Fallible
import Bentobox.Sdk.GraphNode

/-!
# Tracing expressions

An expression of a convert function is run by Python on `GraphNode` objects. `trace`
is this run, `object` the object it comes to when the leaves are given, and `eval`
the value that the expression has on the values of its leaves.

Python decides `and`, `or` and `not` while it traces, when every `GraphNode` counts
as true. `Kept t e` says that the operand it keeps has the value `t`; the traced
object then stands for `t` (`Kept.denotes`).
-/
namespace Bentobox.Sdk

/-- Expressions whose names and attribute reads are the leaves `L`. A ternary is
`body if test else orelse`. -/
inductive Expr (L : Type)
  | const (val : Native)
  | leaf (l : L)
  | arithmetic (op : ArithmeticOperator) (x y : Expr L)
  | negative (x : Expr L)
  | positive (x : Expr L)
  | compare (op : CompareOperator) (x y : Expr L)
  | and (x y : Expr L)
  | or (x y : Expr L)
  | not (x : Expr L)
  | unary (fn : PlotterUnary) (x : Expr L)
  | binary (fn : PlotterBinary) (x y : Expr L)
  | switch (condition true_ false_ : Expr L)
  | ternary (test body orelse : Expr L)
  | random (low high : Expr L)
  deriving DecidableEq

namespace Expr
variable {L : Type}

/-- `x op₁ y₁ op₂ y₂ …` is `x op₁ y₁ and y₁ op₂ y₂ and …`. -/
def chain (x : Expr L) (op : CompareOperator) (y : Expr L) :
    List (CompareOperator × Expr L) → Expr L
  | [] => .compare op x y
  | (op', z) :: rest => .and (.compare op x y) (chain y op' z rest)

/-- The leaves in the order of the source. -/
def leaves : Expr L → List L
  | const _ => []
  | leaf l => [l]
  | arithmetic _ x y | compare _ x y | and x y | or x y | binary _ x y | random x y =>
    x.leaves ++ y.leaves
  | negative x | positive x | not x | unary _ x => x.leaves
  | switch c x y | ternary c x y => c.leaves ++ x.leaves ++ y.leaves

/-- The leaves outside of ternaries. -/
def ownLeaves : Expr L → List L
  | const _ | ternary _ _ _ => []
  | leaf l => [l]
  | arithmetic _ x y | compare _ x y | and x y | or x y | binary _ x y | random x y =>
    x.ownLeaves ++ y.ownLeaves
  | negative x | positive x | not x | unary _ x => x.ownLeaves
  | switch c x y => c.ownLeaves ++ x.ownLeaves ++ y.ownLeaves

/-- The leaves inside of ternaries. -/
def ternaryLeaves : Expr L → List L
  | const _ | leaf _ => []
  | arithmetic _ x y | compare _ x y | and x y | or x y | binary _ x y | random x y =>
    x.ternaryLeaves ++ y.ternaryLeaves
  | negative x | positive x | not x | unary _ x => x.ternaryLeaves
  | switch c x y => c.ternaryLeaves ++ x.ternaryLeaves ++ y.ternaryLeaves
  | ternary c x y => c.leaves ++ x.leaves ++ y.leaves

theorem mem_leaves_iff {e : Expr L} {l : L} :
    l ∈ e.leaves ↔ l ∈ e.ownLeaves ∨ l ∈ e.ternaryLeaves := by
  induction e with
  | const val | leaf l' => simp [leaves, ownLeaves, ternaryLeaves]
  | arithmetic op x y hx hy | compare op x y hx hy | and x y hx hy | or x y hx hy
  | binary fn x y hx hy | random x y hx hy =>
    simp only [leaves, ownLeaves, ternaryLeaves, List.mem_append, hx, hy]
    exact or_or_or_comm
  | negative x hx | positive x hx | not x hx | unary fn x hx => exact hx
  | switch c x y hc hx hy =>
    simp only [leaves, ownLeaves, ternaryLeaves, List.mem_append, hc, hx, hy]
    grind
  | ternary c x y hc hx hy => simp [leaves, ownLeaves, ternaryLeaves]

/-! ## The run of Python -/

/-- The run of Python, given what it does at a leaf. -/
def trace {m : Type → Type} [Monad m] (py : Python) (lift : Except PythonError Object → m Object)
    (leafOp : L → m Object) : Expr L → m Object
  | const val => pure (.native val)
  | leaf l => leafOp l
  | arithmetic op x y => do
    let x ← x.trace py lift leafOp
    let y ← y.trace py lift leafOp
    lift (py.arithmeticOp op x y)
  | negative x => do
    let x ← x.trace py lift leafOp
    lift (py.negativeOp x)
  | positive x => do
    let x ← x.trace py lift leafOp
    lift (py.positiveOp x)
  | compare op x y => do
    let x ← x.trace py lift leafOp
    let y ← y.trace py lift leafOp
    lift (py.compareOp op x y)
  | and x y => do
    let x ← x.trace py lift leafOp
    if x.truth then y.trace py lift leafOp else pure x
  | or x y => do
    let x ← x.trace py lift leafOp
    if x.truth then pure x else y.trace py lift leafOp
  | not x => do
    let x ← x.trace py lift leafOp
    pure (.native (.bool (!x.truth)))
  | unary fn x => do
    let x ← x.trace py lift leafOp
    lift (Plotter.unary fn x)
  | binary fn x y => do
    let x ← x.trace py lift leafOp
    let y ← y.trace py lift leafOp
    lift (Plotter.binary fn x y)
  | switch condition true_ false_ => do
    let condition ← condition.trace py lift leafOp
    let true_ ← true_.trace py lift leafOp
    let false_ ← false_.trace py lift leafOp
    lift (Plotter.switch condition true_ false_)
  | ternary test body orelse => do
    -- `transform_ternary` has made a call of `g.switch` of it
    let condition ← test.trace py lift leafOp
    let true_ ← body.trace py lift leafOp
    let false_ ← orelse.trace py lift leafOp
    lift (Plotter.switch condition true_ false_)
  | random low high => do
    let low ← low.trace py lift leafOp
    let high ← high.trace py lift leafOp
    lift (Plotter.random low high)

/-- The object that the run comes to when `obj` are the objects at the leaves. -/
def object (py : Python) (obj : L → Except PythonError Object) :
    Expr L → Except PythonError Object :=
  trace py id obj

section Operands
variable {py : Python} {obj : L → Except PythonError Object} {c x y : Expr L} {d a b : Object}

theorem object_arithmetic (op : ArithmeticOperator) (hx : x.object py obj = .ok a)
    (hy : y.object py obj = .ok b) :
    (arithmetic op x y).object py obj = py.arithmeticOp op a b := by
  change (x.object py obj >>= fun a => y.object py obj >>= fun b => py.arithmeticOp op a b) = _
  simp only [hx, hy, Fallible.ok_bind]

theorem object_negative (hx : x.object py obj = .ok a) :
    (negative x).object py obj = py.negativeOp a := by
  change (x.object py obj >>= fun a => py.negativeOp a) = _
  simp only [hx, Fallible.ok_bind]

theorem object_positive (hx : x.object py obj = .ok a) :
    (positive x).object py obj = py.positiveOp a := by
  change (x.object py obj >>= fun a => py.positiveOp a) = _
  simp only [hx, Fallible.ok_bind]

theorem object_compare (op : CompareOperator) (hx : x.object py obj = .ok a)
    (hy : y.object py obj = .ok b) : (compare op x y).object py obj = py.compareOp op a b := by
  change (x.object py obj >>= fun a => y.object py obj >>= fun b => py.compareOp op a b) = _
  simp only [hx, hy, Fallible.ok_bind]

theorem object_unary (fn : PlotterUnary) (hx : x.object py obj = .ok a) :
    (unary fn x).object py obj = Plotter.unary fn a := by
  change (x.object py obj >>= fun a => Plotter.unary fn a) = _
  simp only [hx, Fallible.ok_bind]

theorem object_binary (fn : PlotterBinary) (hx : x.object py obj = .ok a)
    (hy : y.object py obj = .ok b) : (binary fn x y).object py obj = Plotter.binary fn a b := by
  change (x.object py obj >>= fun a => y.object py obj >>= fun b => Plotter.binary fn a b) = _
  simp only [hx, hy, Fallible.ok_bind]

theorem object_switch (hc : c.object py obj = .ok d) (hx : x.object py obj = .ok a)
    (hy : y.object py obj = .ok b) : (switch c x y).object py obj = Plotter.switch d a b := by
  change (c.object py obj >>= fun d => x.object py obj >>= fun a => y.object py obj >>= fun b =>
    Plotter.switch d a b) = _
  simp only [hc, hx, hy, Fallible.ok_bind]

theorem object_random (hx : x.object py obj = .ok a) (hy : y.object py obj = .ok b) :
    (random x y).object py obj = Plotter.random a b := by
  change (x.object py obj >>= fun a => y.object py obj >>= fun b => Plotter.random a b) = _
  simp only [hx, hy, Fallible.ok_bind]

end Operands

/-- A run whose leaves are the same in all states with `P` comes to that object. -/
theorem trace_computes {S : Type} {P : S → Prop} {py : Python}
    {leafOp : L → Fallible S PythonError Object} {obj : L → Except PythonError Object}
    (hleaf : ∀ l, Fallible.Computes P (leafOp l) (obj l)) (e : Expr L) :
    Fallible.Computes P (e.trace py Fallible.ofExcept leafOp) (e.object py obj) := by
  induction e with
  | const val => exact Fallible.Computes.pure _
  | leaf l => exact hleaf l
  | arithmetic op x y hx hy | compare op x y hx hy | binary fn x y hx hy | random x y hx hy =>
    exact hx.bind fun a => hy.bind fun b => Fallible.Computes.ofExcept _
  | negative x hx | positive x hx | unary fn x hx =>
    exact hx.bind fun a => Fallible.Computes.ofExcept _
  | and x y hx hy =>
    refine hx.bind fun a => ?_
    split
    · exact hy
    · exact Fallible.Computes.pure a
  | or x y hx hy =>
    refine hx.bind fun a => ?_
    split
    · exact Fallible.Computes.pure a
    · exact hy
  | not x hx => exact hx.bind fun a => Fallible.Computes.pure _
  | switch c x y hc hx hy | ternary c x y hc hx hy =>
    exact hc.bind fun a => hx.bind fun b => hy.bind fun d => Fallible.Computes.ofExcept _

/-! ## The value of an expression -/

/-- The value on given values of the leaves, by the engine's operations; a random number is not
a value. The connectives ask for booleans and skip their right operand as Python does. -/
def eval (F : FloatOps) (val : L → Option Value) : Expr L → Option Value
  | const v => (wrapPrimitive v).toOption
  | leaf l => val l
  | arithmetic op x y =>
    (x.eval F val).bind fun v => (y.eval F val).bind fun w => (binaryOp F op.op v w).toOption
  | negative x => (x.eval F val).bind fun v => (subOp F (setVal (.number (.int32 0))) v).toOption
  | positive x => x.eval F val
  | compare op x y => (x.eval F val).bind fun v => (y.eval F val).bind fun w => op.apply F v w
  | and x y => (x.eval F val).bind fun v => select v (y.eval F val) (some v)
  | or x y => (x.eval F val).bind fun v => select v (some v) (y.eval F val)
  | not x => (x.eval F val).bind fun v => (notOp v).toOption
  | unary fn x => (x.eval F val).bind fun v => (unaryOp F fn.op v).toOption
  | binary fn x y =>
    (x.eval F val).bind fun v => (y.eval F val).bind fun w => (binaryOp F fn.op v w).toOption
  | switch c x y | ternary c x y =>
    (c.eval F val).bind fun v => select v (x.eval F val) (y.eval F val)
  | random _ _ => none

section Kept
variable (F : FloatOps) (py : Python) (σ : Valuation) (obj : L → Except PythonError Object)
  (val : L → Option Value)

/-- What Python keeps of the expression has the value `t`. At a connective this is the operand
that is selected by the truth of the left one; an operator that `GraphNode` does not decide has
to give Python's own result the value that the engine gives. -/
def Kept (t : Option Value) : Expr L → Prop
  | const v => Denotes F σ (.native v) t
  | leaf l => val l = t
  | arithmetic op x y => (arithmetic op x y).eval F val = t ∧ Kept (x.eval F val) x ∧
    Kept (y.eval F val) y ∧ ∀ a b v, x.object py obj = .ok a → y.object py obj = .ok b →
      Python.arithmeticOverloaded op a b = false → py.arithmetic op a b = .ok v →
        Denotes F σ (.native v) t
  | negative x => (negative x).eval F val = t ∧ Kept (x.eval F val) x ∧
    ∀ a v, x.object py obj = .ok a → a.isGraphNode = false → py.negative a = .ok v →
      Denotes F σ (.native v) t
  | positive x => (positive x).eval F val = t ∧ Kept (x.eval F val) x ∧
    ∀ a v, x.object py obj = .ok a → a.isGraphNode = false → py.positive a = .ok v →
      Denotes F σ (.native v) t
  | compare op x y => (compare op x y).eval F val = t ∧ Kept (x.eval F val) x ∧
    Kept (y.eval F val) y ∧ ∀ a b o, x.object py obj = .ok a → y.object py obj = .ok b →
      Python.compareOverloaded op a b = false → py.compareOp op a b = .ok o → Denotes F σ o t
  | and x y => ∀ a, x.object py obj = .ok a → if a.truth then Kept t y else Kept t x
  | or x y => ∀ a, x.object py obj = .ok a → if a.truth then Kept t x else Kept t y
  | not x => ∀ a, x.object py obj = .ok a → t = some (setVal (.bool (!a.truth)))
  | unary fn x => (unary fn x).eval F val = t ∧ Kept (x.eval F val) x
  | binary fn x y => (binary fn x y).eval F val = t ∧ Kept (x.eval F val) x ∧
    Kept (y.eval F val) y
  | switch c x y => (switch c x y).eval F val = t ∧ Kept (c.eval F val) c ∧
    Kept (x.eval F val) x ∧ Kept (y.eval F val) y
  | ternary c x y => (ternary c x y).eval F val = t ∧ Kept (c.eval F val) c ∧
    Kept (x.eval F val) x ∧ Kept (y.eval F val) y
  | random _ _ => t = none

/-- The traced object stands for the value of the expression. -/
def Faithful (e : Expr L) : Prop := e.Kept F py σ obj val (e.eval F val)

variable {F py σ obj val}

theorem kept_and_iff {x y : Expr L} {a : Object} (ha : x.object py obj = .ok a)
    {t : Option Value} : (and x y).Kept F py σ obj val t ↔
      if a.truth then y.Kept F py σ obj val t else x.Kept F py σ obj val t :=
  ⟨fun h => h a ha, fun h b hb => by rw [ha] at hb; cases hb; exact h⟩

theorem kept_or_iff {x y : Expr L} {a : Object} (ha : x.object py obj = .ok a)
    {t : Option Value} : (or x y).Kept F py σ obj val t ↔
      if a.truth then x.Kept F py σ obj val t else y.Kept F py σ obj val t :=
  ⟨fun h => h a ha, fun h b hb => by rw [ha] at hb; cases hb; exact h⟩

theorem kept_not_iff {x : Expr L} {a : Object} (ha : x.object py obj = .ok a)
    {t : Option Value} : (not x).Kept F py σ obj val t ↔
      t = some (setVal (.bool (!a.truth))) :=
  ⟨fun h => h a ha, fun h b hb => by rw [ha] at hb; cases hb; exact h⟩

/-- **What Python keeps is what the traced object stands for**, when the objects at the leaves
stand for their values. -/
theorem Kept.denotes {e : Expr L} {t : Option Value} {o : Object}
    (h : e.Kept F py σ obj val t) (ho : e.object py obj = .ok o)
    (hleaf : ∀ l ∈ e.leaves, ∀ o, obj l = .ok o → Denotes F σ o (val l)) : Denotes F σ o t := by
  induction e generalizing t o with
  | const v =>
    cases ho
    exact h
  | leaf l => exact h ▸ hleaf l (by simp [leaves]) o ho
  | arithmetic op x y hx hy =>
    obtain ⟨rfl, hkx, hky, hown⟩ := h
    obtain ⟨a, ha, hrest⟩ := Fallible.result_bind_eq_ok_iff.mp ho
    obtain ⟨b, hb, hop⟩ := Fallible.result_bind_eq_ok_iff.mp hrest
    have hda := hx hkx ha fun l hl => hleaf l (by simp [leaves, hl])
    have hdb := hy hky hb fun l hl => hleaf l (by simp [leaves, hl])
    rcases Python.arithmeticOp_cases hop with ⟨hg, -⟩ | ⟨hg, v, hv, rfl⟩
    · exact Python.arithmeticOp_denotes hda hdb hg hop
    · exact hown a b v ha hb hg hv
  | negative x hx =>
    obtain ⟨rfl, hkx, hown⟩ := h
    obtain ⟨a, ha, hop⟩ := Fallible.result_bind_eq_ok_iff.mp ho
    have hda := hx hkx ha hleaf
    cases a with
    | graphNode => exact Python.negativeOp_denotes hda rfl hop
    | native | message =>
      obtain ⟨v, hv, rfl⟩ := Fallible.map_eq_ok_iff.mp hop
      exact hown _ v ha rfl hv
  | positive x hx =>
    obtain ⟨rfl, hkx, hown⟩ := h
    obtain ⟨a, ha, hop⟩ := Fallible.result_bind_eq_ok_iff.mp ho
    have hda := hx hkx ha hleaf
    cases a with
    | graphNode => exact Python.positiveOp_denotes hda rfl hop
    | native | message =>
      obtain ⟨v, hv, rfl⟩ := Fallible.map_eq_ok_iff.mp hop
      exact hown _ v ha rfl hv
  | compare op x y hx hy =>
    obtain ⟨rfl, hkx, hky, hown⟩ := h
    obtain ⟨a, ha, hrest⟩ := Fallible.result_bind_eq_ok_iff.mp ho
    obtain ⟨b, hb, hop⟩ := Fallible.result_bind_eq_ok_iff.mp hrest
    have hda := hx hkx ha fun l hl => hleaf l (by simp [leaves, hl])
    have hdb := hy hky hb fun l hl => hleaf l (by simp [leaves, hl])
    cases hg : Python.compareOverloaded op a b with
    | true => exact Python.compareOp_denotes hda hdb hg hop
    | false => exact hown a b o ha hb hg hop
  | and x y hx hy =>
    obtain ⟨a, ha, hrest⟩ := Fallible.result_bind_eq_ok_iff.mp ho
    have hk := h a ha
    cases ht : a.truth with
    | true =>
      rw [ht] at hk hrest
      exact hy hk hrest fun l hl => hleaf l (by simp [leaves, hl])
    | false =>
      rw [ht] at hk hrest
      cases hrest
      exact hx hk ha fun l hl => hleaf l (by simp [leaves, hl])
  | or x y hx hy =>
    obtain ⟨a, ha, hrest⟩ := Fallible.result_bind_eq_ok_iff.mp ho
    have hk := h a ha
    cases ht : a.truth with
    | true =>
      rw [ht] at hk hrest
      cases hrest
      exact hx hk ha fun l hl => hleaf l (by simp [leaves, hl])
    | false =>
      rw [ht] at hk hrest
      exact hy hk hrest fun l hl => hleaf l (by simp [leaves, hl])
  | not x hx =>
    obtain ⟨a, ha, hrest⟩ := Fallible.result_bind_eq_ok_iff.mp ho
    cases hrest
    rw [h a ha]
    exact denotes_native_iff.mpr rfl
  | unary fn x hx =>
    obtain ⟨rfl, hkx⟩ := h
    obtain ⟨a, ha, hop⟩ := Fallible.result_bind_eq_ok_iff.mp ho
    exact Plotter.unary_denotes (hx hkx ha hleaf) hop
  | binary fn x y hx hy =>
    obtain ⟨rfl, hkx, hky⟩ := h
    obtain ⟨a, ha, hrest⟩ := Fallible.result_bind_eq_ok_iff.mp ho
    obtain ⟨b, hb, hop⟩ := Fallible.result_bind_eq_ok_iff.mp hrest
    exact Plotter.binary_denotes (hx hkx ha fun l hl => hleaf l (by simp [leaves, hl]))
      (hy hky hb fun l hl => hleaf l (by simp [leaves, hl])) hop
  | switch c x y hc hx hy | ternary c x y hc hx hy =>
    obtain ⟨rfl, hkc, hkx, hky⟩ := h
    obtain ⟨d, hd, hrest⟩ := Fallible.result_bind_eq_ok_iff.mp ho
    obtain ⟨a, ha, hrest⟩ := Fallible.result_bind_eq_ok_iff.mp hrest
    obtain ⟨b, hb, hop⟩ := Fallible.result_bind_eq_ok_iff.mp hrest
    exact Plotter.switch_denotes (hc hkc hd fun l hl => hleaf l (by simp [leaves, hl]))
      (hx hkx ha fun l hl => hleaf l (by simp [leaves, hl]))
      (hy hky hb fun l hl => hleaf l (by simp [leaves, hl])) hop
  | random x y _ _ =>
    subst h
    obtain ⟨a, -, hrest⟩ := Fallible.result_bind_eq_ok_iff.mp ho
    obtain ⟨b, -, hop⟩ := Fallible.result_bind_eq_ok_iff.mp hrest
    exact Plotter.random_denotes hop

end Kept

/-! ## Arithmetic expressions -/

/-- Built from constants and leaves with the arithmetic operators. -/
def isArithmetic : Expr L → Bool
  | const _ | leaf _ => true
  | arithmetic _ x y => x.isArithmetic && y.isArithmetic
  | negative x | positive x => x.isArithmetic
  | _ => false

section Arithmetic
variable (F : FloatOps) (py : Python) (σ : Valuation) (obj : L → Except PythonError Object)
  (val : L → Option Value)

/-- The constants fit into a value, and where an operator is left to Python, on constants only or
with a string on the left of `%`, Python computes the value that the engine would compute. -/
def ConstantsAgree : Expr L → Prop
  | const v => Denotes F σ (.native v) ((const v : Expr L).eval F val)
  | arithmetic op x y => ConstantsAgree x ∧ ConstantsAgree y ∧
    ∀ a b v, x.object py obj = .ok a → y.object py obj = .ok b →
      Python.arithmeticOverloaded op a b = false → py.arithmetic op a b = .ok v →
        Denotes F σ (.native v) ((arithmetic op x y).eval F val)
  | negative x => ConstantsAgree x ∧
    ∀ a v, x.object py obj = .ok (.native a) → py.negative (.native a) = .ok v →
      Denotes F σ (.native v) ((negative x).eval F val)
  | positive x => ConstantsAgree x ∧
    ∀ a v, x.object py obj = .ok (.native a) → py.positive (.native a) = .ok v →
      Denotes F σ (.native v) ((positive x).eval F val)
  | compare op x y => ConstantsAgree x ∧ ConstantsAgree y ∧
    ∀ a b v, x.object py obj = .ok (.native a) → y.object py obj = .ok (.native b) →
      py.compare op a b = .ok v → Denotes F σ (.native v) ((compare op x y).eval F val)
  | and x y | or x y => ConstantsAgree x ∧ ConstantsAgree y
  | not x => ConstantsAgree x
  | _ => True

variable {F py σ obj val}

/-- An arithmetic expression does not come to a bare message. -/
theorem isMessage_object {e : Expr L} (he : e.isArithmetic)
    (hobj : ∀ l o, obj l = .ok o → o.isMessage = false) {o : Object}
    (ho : e.object py obj = .ok o) : o.isMessage = false := by
  cases e with
  | const v => cases ho; rfl
  | leaf l => exact hobj l o ho
  | arithmetic op x y =>
    obtain ⟨a, -, hrest⟩ := Fallible.result_bind_eq_ok_iff.mp ho
    obtain ⟨b, -, hop⟩ := Fallible.result_bind_eq_ok_iff.mp hrest
    exact Python.arithmeticOp_isMessage hop
  | negative x =>
    obtain ⟨a, -, hop⟩ := Fallible.result_bind_eq_ok_iff.mp ho
    exact Python.negativeOp_isMessage hop
  | positive x =>
    obtain ⟨a, -, hop⟩ := Fallible.result_bind_eq_ok_iff.mp ho
    exact Python.positiveOp_isMessage hop
  | _ => cases he

/-- **Arithmetic expressions are traced faithfully** up to Python's own arithmetic. -/
theorem faithful_of_isArithmetic {e : Expr L} (he : e.isArithmetic)
    (hobj : ∀ l o, obj l = .ok o → o.isMessage = false)
    (hc : e.ConstantsAgree F py σ obj val) : e.Faithful F py σ obj val := by
  induction e with
  | const v => exact hc
  | leaf l => rfl
  | arithmetic op x y hx hy =>
    simp only [isArithmetic, Bool.and_eq_true] at he
    exact ⟨rfl, hx he.1 hc.1, hy he.2 hc.2.1, hc.2.2⟩
  | negative x hx =>
    refine ⟨rfl, hx he hc.1, fun a v ha hg hv => ?_⟩
    have hma := isMessage_object (e := x) he hobj ha
    cases a with
    | graphNode => cases hg
    | message => cases hma
    | native a => exact hc.2 a v ha hv
  | positive x hx =>
    refine ⟨rfl, hx he hc.1, fun a v ha hg hv => ?_⟩
    have hma := isMessage_object (e := x) he hobj ha
    cases a with
    | graphNode => cases hg
    | message => cases hma
    | native a => exact hc.2 a v ha hv
  | _ => cases he

theorem randomFree_object {e : Expr L} (he : e.isArithmetic)
    (hobj : ∀ l o, obj l = .ok o → o.randomFree) {o : Object} (ho : e.object py obj = .ok o) :
    o.randomFree := by
  induction e generalizing o with
  | const v => cases ho; rfl
  | leaf l => exact hobj l o ho
  | arithmetic op x y hx hy =>
    simp only [isArithmetic, Bool.and_eq_true] at he
    obtain ⟨a, ha, hrest⟩ := Fallible.result_bind_eq_ok_iff.mp ho
    obtain ⟨b, hb, hop⟩ := Fallible.result_bind_eq_ok_iff.mp hrest
    exact Python.arithmeticOp_randomFree (hx he.1 ha) (hy he.2 hb) hop
  | negative x hx =>
    obtain ⟨a, ha, hop⟩ := Fallible.result_bind_eq_ok_iff.mp ho
    exact Python.negativeOp_randomFree (hx he ha) hop
  | positive x hx =>
    obtain ⟨a, ha, hop⟩ := Fallible.result_bind_eq_ok_iff.mp ho
    exact Python.positiveOp_randomFree (hx he ha) hop
  | _ => cases he

end Arithmetic
end Expr
end Bentobox.Sdk
