import Bentobox.Engine.Atomicity
import Bentobox.Sdk.Expression
import Bentobox.Sdk.Recorder

/-!
# Boolean connectives

What becomes of `and`, `or`, `not` and chained comparisons. No pass of the compiler
looks at them, so Python decides them on the objects it traces: `x and y` is `y`,
`x or y` is `x`, `not x` is `False` and a chain is its last comparison. The node
that remains has the value of the expression exactly when the operand kept has it.
-/
namespace Bentobox.Sdk

namespace Expr
variable {L : Type} {F : FloatOps} {py : Python} {σ : Valuation}
  {obj : L → Except PythonError Object} {val : L → Option Value}

/-- Built from boolean constants, leaves and comparisons of arithmetic expressions with the
boolean connectives. -/
def isBoolean : Expr L → Bool
  | const (.bool _) | leaf _ => true
  | compare _ x y => x.isArithmetic && y.isArithmetic
  | and x y | or x y => x.isBoolean && y.isBoolean
  | not x => x.isBoolean
  | _ => false

/-- The object of a boolean expression has a value exactly when what Python keeps has it. -/
theorem denotes_iff_kept {e : Expr L} (he : e.isBoolean)
    (hc : e.ConstantsAgree F py σ obj val) (hobj : ∀ l o, obj l = .ok o → o.isMessage = false)
    (hleaf : ∀ l o, obj l = .ok o → Denotes F σ o (val l)) {o : Object} {t : Option Value}
    (ho : e.object py obj = .ok o) : Denotes F σ o t ↔ e.Kept F py σ obj val t := by
  induction e generalizing o with
  | const v => cases ho; rfl
  | leaf l =>
    have hl := hleaf l o ho
    exact ⟨fun h => hl.unique h, fun h => h ▸ hl⟩
  | compare op x y =>
    simp only [isBoolean, Bool.and_eq_true] at he
    have hx := faithful_of_isArithmetic he.1 hobj hc.1
    have hy := faithful_of_isArithmetic he.2 hobj hc.2.1
    have hown : ∀ a b o, x.object py obj = .ok a → y.object py obj = .ok b →
        Python.compareOverloaded op a b = false → py.compareOp op a b = .ok o →
          Denotes F σ o ((compare op x y).eval F val) := by
      intro a b o ha hb hg hop
      rcases Python.compareOp_cases (isMessage_object he.1 hobj ha)
        (isMessage_object he.2 hobj hb) hop with h | ⟨a', b', v, rfl, rfl, hv, rfl⟩
      · rw [hg] at h; cases h
      · exact hc.2.2 a' b' v ha hb hv
    have hk : (compare op x y).Kept F py σ obj val ((compare op x y).eval F val) :=
      ⟨rfl, hx, hy, hown⟩
    have hd := hk.denotes ho fun l _ => hleaf l
    exact ⟨fun h => hd.unique h ▸ hk, fun h => h.denotes ho fun l _ => hleaf l⟩
  | and x y hx hy =>
    simp only [isBoolean, Bool.and_eq_true] at he
    obtain ⟨a, ha, hrest⟩ := Fallible.result_bind_eq_ok_iff.mp ho
    rw [kept_and_iff ha]
    cases ht : a.truth with
    | true =>
      rw [ht] at hrest
      exact hy he.2 hc.2 hrest
    | false =>
      rw [ht] at hrest
      cases hrest
      exact hx he.1 hc.1 ha
  | or x y hx hy =>
    simp only [isBoolean, Bool.and_eq_true] at he
    obtain ⟨a, ha, hrest⟩ := Fallible.result_bind_eq_ok_iff.mp ho
    rw [kept_or_iff ha]
    cases ht : a.truth with
    | true =>
      rw [ht] at hrest
      cases hrest
      exact hx he.1 hc.1 ha
    | false =>
      rw [ht] at hrest
      exact hy he.2 hc.2 hrest
  | not x hx =>
    obtain ⟨a, ha, hrest⟩ := Fallible.result_bind_eq_ok_iff.mp ho
    cases hrest
    rw [kept_not_iff ha]
    exact ⟨fun h => h.unique (denotes_native_iff.mpr rfl), fun h => h ▸ denotes_native_iff.mpr rfl⟩
  | _ => cases he

theorem randomFree_of_isBoolean {e : Expr L} (he : e.isBoolean)
    (hobj : ∀ l o, obj l = .ok o → o.isMessage = false)
    (hrand : ∀ l o, obj l = .ok o → o.randomFree) {o : Object}
    (ho : e.object py obj = .ok o) : o.randomFree := by
  induction e generalizing o with
  | const v => cases ho; rfl
  | leaf l => exact hrand l o ho
  | compare op x y =>
    simp only [isBoolean, Bool.and_eq_true] at he
    obtain ⟨a, ha, hrest⟩ := Fallible.result_bind_eq_ok_iff.mp ho
    obtain ⟨b, hb, hop⟩ := Fallible.result_bind_eq_ok_iff.mp hrest
    exact Python.compareOp_randomFree (randomFree_object he.1 hrand ha)
      (randomFree_object he.2 hrand hb) (isMessage_object he.1 hobj ha)
      (isMessage_object he.2 hobj hb) hop
  | and x y hx hy =>
    simp only [isBoolean, Bool.and_eq_true] at he
    obtain ⟨a, ha, hrest⟩ := Fallible.result_bind_eq_ok_iff.mp ho
    cases ht : a.truth with
    | true => rw [ht] at hrest; exact hy he.2 hrest
    | false => rw [ht] at hrest; cases hrest; exact hx he.1 ha
  | or x y hx hy =>
    simp only [isBoolean, Bool.and_eq_true] at he
    obtain ⟨a, ha, hrest⟩ := Fallible.result_bind_eq_ok_iff.mp ho
    cases ht : a.truth with
    | true => rw [ht] at hrest; cases hrest; exact hx he.1 ha
    | false => rw [ht] at hrest; exact hy he.2 hrest
  | not x hx =>
    obtain ⟨a, -, hrest⟩ := Fallible.result_bind_eq_ok_iff.mp ho
    cases hrest
    rfl
  | _ => cases he

end Expr

/-! ## In a convert function -/

variable {F : FloatOps} {py : Python}

/-- The object that an attribute read gives while a recorder has the given outputs. -/
def recorded (outputs : OrderedDict String Mutate) (ref : AttributeRef) :
    Except PythonError Object :=
  .ok (.graphNode (Recorder.definition outputs ref))

/-- The value that an attribute has there, in terms of the values at the start. -/
def current (F : FloatOps) (σ : Valuation) (outputs : OrderedDict String Mutate) : Valuation :=
  fun ref => denote F σ (Recorder.definition outputs ref)

/-- The traced expression has a node, which is what a condition of `g.switch` or an assigned
attribute takes, and the engine evaluates it to `v`. -/
def CompilesTo (F : FloatOps) (s : Env Stores) (o : Object) (v : Value) : Prop :=
  ∃ n, o.wrap = .ok n ∧ (evaluateNode F n s).1 = .ok v

/-- **Connectives.** Wherever it stands, a boolean expression compiles to its value exactly when
the operand that Python keeps has that value. -/
theorem boolean_compiles_iff {e : Expr AttributeRef} (he : e.isBoolean) {r₀ r : Recorder}
    (hrand : ∀ ref, (Recorder.definition r₀.outputs ref).randomFree) {s : Env Stores}
    (hs : s.store.Wf)
    (hc : e.ConstantsAgree F py s.store.valuation (recorded r₀.outputs)
      (current F s.store.valuation r₀.outputs))
    {o : Object} (ht : e.trace py Fallible.ofExcept Recorder.read r₀ = (.ok o, r)) {b : Bool}
    (hb : e.eval F (current F s.store.valuation r₀.outputs) = some (setVal (.bool b))) :
    CompilesTo F s o (setVal (.bool b)) ↔
      e.Kept F py s.store.valuation (recorded r₀.outputs)
        (current F s.store.valuation r₀.outputs)
        (e.eval F (current F s.store.valuation r₀.outputs)) := by
  have hobj : ∀ l o, recorded r₀.outputs l = .ok o → o.isMessage = false := by
    rintro l o ⟨⟩; rfl
  have hfree : ∀ l o, recorded r₀.outputs l = .ok o → o.randomFree := by
    rintro l o ⟨⟩; exact hrand l
  have hleaf : ∀ l o, recorded r₀.outputs l = .ok o →
      Denotes F s.store.valuation o (current F s.store.valuation r₀.outputs l) := by
    rintro l o ⟨⟩; exact ⟨_, rfl, rfl⟩
  have ho : e.object py (recorded r₀.outputs) = .ok o := by
    have hcomp : (e.trace py Fallible.ofExcept Recorder.read r₀).1 =
        e.object py (recorded r₀.outputs) :=
      (Expr.trace_computes (Recorder.read_computes r₀.outputs) e r₀ rfl).1
    rw [← hcomp, ht]
  rw [← Expr.denotes_iff_kept he hc hobj hleaf ho, hb]
  refine exists_congr fun n => and_congr_right fun hn => ?_
  have hn' := Object.randomFree_wrap (Expr.randomFree_of_isBoolean he hobj hfree ho) hn
  rw [← Stores.evaluateNode_denote F hn' hs]
  cases (evaluateNode F n s).1 <;> simp [Except.toOption]

/-- A gate whose first input is false and whose second input is true. -/
def andGate : SimulationDef where
  name := "and_gate"
  entities := [⟨1, ["pin"]⟩]
  components := [⟨"pin", ((∅ : OrderedDict String DataType).insert "first_input"
    (.primitive .bool)).insert "second_input" (.primitive .bool)⟩]
  systems := []
  initGraph := ⟨[], [⟨⟨1, "pin", "first_input"⟩, .const (setVal (.bool false))⟩,
    ⟨⟨1, "pin", "second_input"⟩, .const (setVal (.bool true))⟩]⟩

/-- The engine after `andGate` has been applied. -/
private theorem andGate_applied : ∃ store : Stores, store.Wf ∧
    store.valuation ⟨1, "pin", "first_input"⟩ = some (setVal (.bool false)) ∧
    store.valuation ⟨1, "pin", "second_input"⟩ = some (setVal (.bool true)) := by
  have hreach : (Engine.afterApply andGate).Reachable default :=
    ⟨0, [.applySimulation andGate], _, rfl⟩
  exact ⟨_, hreach.wf "and_gate" ⟨andGate, _, false⟩ rfl, rfl, rfl⟩

/-- The conjunction with the false input on the right compiles to its value. -/
theorem boolean_compiles_iff_andGate : ∃ s : Env Stores,
    CompilesTo default s (.graphNode (.retrieve ⟨1, "pin", "first_input"⟩))
      (setVal (.bool false)) := by
  obtain ⟨store, hwf, hfirst, hsecond⟩ := andGate_applied
  let e : Expr AttributeRef :=
    .and (.leaf ⟨1, "pin", "second_input"⟩) (.leaf ⟨1, "pin", "first_input"⟩)
  have ht : e.trace default Fallible.ofExcept Recorder.read .empty = (.ok _, _) := rfl
  have hval : e.eval default (current default store.valuation ∅) =
      some (setVal (.bool false)) := by
    simp only [e, Expr.eval, current, Recorder.definition_empty, denote, hsecond, hfirst]
    rfl
  have hc : e.ConstantsAgree default default store.valuation (recorded ∅)
      (current default store.valuation ∅) := ⟨trivial, trivial⟩
  have hkept : e.Kept default default store.valuation (recorded ∅)
      (current default store.valuation ∅) (e.eval default (current default store.valuation ∅)) := by
    rw [hval, Expr.kept_and_iff rfl]
    exact hfirst
  have he : e.isBoolean = true := rfl
  exact ⟨⟨store, 0⟩,
    (boolean_compiles_iff he (fun _ => rfl) (s := ⟨store, 0⟩) hwf hc ht hval).mpr hkept⟩

/-- `first_input and second_input` compiles to the second input. -/
theorem and_gate_miscompiled : ¬ ∀ (F : FloatOps) (py : Python) (e : Expr AttributeRef)
    (s : Env Stores) (o : Object) (r : Recorder) (b : Bool), e.isBoolean → s.store.Wf →
    e.ConstantsAgree F py s.store.valuation (recorded ∅) s.store.valuation →
    e.trace py Fallible.ofExcept Recorder.read .empty = (.ok o, r) →
    e.eval F s.store.valuation = some (setVal (.bool b)) → CompilesTo F s o (setVal (.bool b)) := by
  intro h
  obtain ⟨store, hwf, hfirst, hsecond⟩ := andGate_applied
  let e : Expr AttributeRef :=
    .and (.leaf ⟨1, "pin", "first_input"⟩) (.leaf ⟨1, "pin", "second_input"⟩)
  have hval : e.eval default store.valuation = some (setVal (.bool false)) := by
    rw [Expr.eval, Expr.eval, hfirst]
    rfl
  have hcompiles : CompilesTo default ⟨store, 0⟩
      (.graphNode (.retrieve ⟨1, "pin", "second_input"⟩)) (setVal (.bool false)) :=
    h default default e ⟨store, 0⟩ _ _ false rfl hwf ⟨trivial, trivial⟩ rfl hval
  obtain ⟨_, ⟨⟩, hev⟩ := hcompiles
  have hden : (evaluateNode default (.retrieve ⟨1, "pin", "second_input"⟩)
      (⟨store, 0⟩ : Env Stores)).1.toOption = store.valuation ⟨1, "pin", "second_input"⟩ :=
    Stores.evaluateNode_denote default rfl hwf
  rw [hev, hsecond] at hden
  exact absurd hden (by decide)

end Bentobox.Sdk
