import Bentobox.Engine.AttributeMap

/-!
# The value of a node

A node without random operations has a value that depends on the attributes it reads
and on nothing else. `denote` is this value, absent where evaluation throws or is
undefined. On every store the interpreter computes it (`evaluateNode_denote`).
-/
namespace Bentobox

/-- The attributes that have a value. -/
abbrev Valuation := AttributeRef → Option Value

/-- The valuation with the value of one attribute replaced. -/
def Valuation.set (σ : Valuation) (ref : AttributeRef) (v : Option Value) : Valuation :=
  fun r => if r = ref then v else σ r

@[simp] theorem Valuation.set_self (σ : Valuation) (ref : AttributeRef) (v : Option Value) :
    σ.set ref v ref = v := by simp [set]

theorem Valuation.set_ne (σ : Valuation) {ref r : AttributeRef} (h : r ≠ ref) (v : Option Value) :
    σ.set ref v r = σ r := by simp [set, h]

/-- The branch that a condition selects. -/
def select {α : Type} (condition : Value) (onTrue onFalse : Option α) : Option α :=
  match condition.getVal? Scalar.bool? with
  | some true => onTrue
  | some false => onFalse
  | none => none

variable (F : FloatOps)

/-- The value of a node; a random operation has none. -/
def denote (σ : Valuation) : Node → Option Value
  | .notSet => none
  | .const heldValue => some heldValue
  | .retrieve retrieveAttr => σ retrieveAttr
  | .mutate _ _ => none
  | .switch conditionNode trueNode falseNode =>
    (denote σ conditionNode).bind fun c => select c (denote σ trueNode) (denote σ falseNode)
  | .unary op x => (denote σ x).bind fun v => (unaryOp F op v).toOption
  | .binary op x y =>
    (denote σ x).bind fun v => (denote σ y).bind fun w => (binaryOp F op v w).toOption
  | .random _ _ => none

/-- **Locality**: the value of a node depends on the attributes it retrieves. -/
theorem denote_congr {σ τ : Valuation} {n : Node} (h : ∀ r ∈ n.retrieves, σ r = τ r) :
    denote F σ n = denote F τ n := by
  induction n with
  | notSet => rfl
  | const v => rfl
  | retrieve r => exact h r (by simp [Node.retrieves])
  | mutate r n _ => rfl
  | switch c t f hc ht hf =>
    simp only [denote, hc fun r hr => h r (by simp [Node.retrieves, hr]),
      ht fun r hr => h r (by simp [Node.retrieves, hr]),
      hf fun r hr => h r (by simp [Node.retrieves, hr])]
  | unary op x hx => simp only [denote, hx h]
  | binary op x y hx hy =>
    simp only [denote, hx fun r hr => h r (by simp [Node.retrieves, hr]),
      hy fun r hr => h r (by simp [Node.retrieves, hr])]
  | random l u _ _ => rfl

/-! ## The interpreter computes the value -/

/-- **Evaluation computes the value** of a node without random operations, on all stores that
evaluation cannot leave and in which the attributes read as they do in the valuation. -/
theorem evaluateNode_denote_of {S : Type} [AttributeStore S] {P : Env S → Prop} {σ : Valuation}
    (hkeep : ∀ n, Fallible.Keeps P (evaluateNode F n))
    (hread : ∀ ref s, P s → (AttributeStore.retrieve ref s.store).1.toOption = σ ref) {n : Node}
    (hn : n.randomFree) {s : Env S} (hs : P s) :
    (evaluateNode F n s).1.toOption = denote F σ n := by
  induction n generalizing s with
  | notSet => rfl
  | const v => rfl
  | retrieve r => exact hread r s hs
  | mutate r n _ => rfl
  | switch c t f hc ht hf =>
    simp only [Node.randomFree, Bool.and_eq_true] at hn
    refine Fallible.toOption_bind (hkeep c s hs) (hc hn.1.1 hs) fun v u hu => ?_
    rw [choose, select]
    rcases v.getVal? Scalar.bool? with _ | _ | _
    · rfl
    · exact hf hn.2 hu
    · exact ht hn.1.2 hu
  | unary op x hx =>
    exact Fallible.toOption_bind (hkeep x s hs) (hx hn hs) fun v u hu => rfl
  | binary op x y hx hy =>
    simp only [Node.randomFree, Bool.and_eq_true] at hn
    refine Fallible.toOption_bind (hkeep x s hs) (hx hn.1 hs) fun v u hu => ?_
    exact Fallible.toOption_bind (hkeep y u hu) (hy hn.2 hu) fun w t ht => rfl
  | random l u _ _ => cases hn

namespace AttributeMap

/-- The attributes of a map that can be read. -/
def valuation (m : AttributeMap) : Valuation := fun ref => (m.get ref).toOption

/-- Evaluation computes the value of a node on a map. -/
theorem evaluateNode_denote {n : Node} (hn : n.randomFree) (s : Env AttributeMap) :
    (evaluateNode F n s).1.toOption = denote F s.store.valuation n := by
  refine evaluateNode_denote_of F (fun n => evaluateNode_keeps F s.store n) ?_ hn rfl
  intro ref t ht
  rw [ht]
  rfl

end AttributeMap

namespace Stores

/-- The attributes of the stores that can be read. -/
def valuation (s : Stores) : Valuation := fun ref =>
  (AttributeStore.retrieve ref s : Except Fault Value × Stores).1.toOption

theorem valuation_view {s : Stores} (hs : s.Wf) : s.view.valuation = s.valuation := by
  funext ref
  exact congrArg Except.toOption (stores_refine_map.retrieve ref s hs).1.symm

/-- The interpreter computes the value of a node on consistent stores. -/
theorem evaluateNode_denote {n : Node} (hn : n.randomFree) {s : Env Stores} (hs : s.store.Wf) :
    (evaluateNode F n s).1.toOption = denote F s.store.valuation n := by
  rw [(evaluateNode_refines F stores_refine_map n s hs).1, AttributeMap.evaluateNode_denote F hn]
  exact congrArg (denote F · n) (valuation_view hs)

end Stores
end Bentobox
