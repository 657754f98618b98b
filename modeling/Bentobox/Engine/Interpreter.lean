import Bentobox.Engine.Operations
import Bentobox.Engine.Lookup

/-!
# The graph interpreter

`evaluateNode`, `mutateOp` and `runGraph`. They reach attributes only through
`retrieve` and `assign`, so the interpreter is stated for any `AttributeStore`: the
stores of the engine are one, the map of attributes it refines is another.

All simulations draw from one random generator, whose state travels next to the
store.
-/
namespace Bentobox

/-- A place that attributes are read from and written to. -/
class AttributeStore (S : Type) where
  retrieve : AttributeRef → Fallible S Fault Value
  assign : FloatOps → AttributeRef → Value → Fallible S Fault Unit

open AttributeStore

instance : AttributeStore Stores where
  retrieve ref := Stores.getComponent ref.component ref.entityId
    (UserComponent.getMutableValue ref.attributeName)
  assign F ref v := Stores.getComponent ref.component ref.entityId
    (UserComponent.setValue F ref.attributeName v)

/-- A store with the state of the random generator. -/
structure Env (S : Type) where
  store : S
  gen : ℕ

abbrev Eval (S α : Type) := Fallible (Env S) Fault α

/-- A computation on the store alone. -/
def onStore {S α : Type} (m : Fallible S Fault α) : Eval S α := fun s =>
  ((m s.store).1, ⟨(m s.store).2, s.gen⟩)

/-- A computation on the generator alone. -/
def onGenerator {S α : Type} (m : ℕ → Except Fault α × ℕ) : Eval S α := fun s =>
  ((m s.gen).1, ⟨s.store, (m s.gen).2⟩)

variable (F : FloatOps) {S : Type} [AttributeStore S]

/-- Continue with one of two computations, as a condition says. -/
def choose {α : Type} (conditionVal : Value) (onTrue onFalse : Eval S α) : Eval S α :=
  match conditionVal.getVal? Scalar.bool? with
  | some true => onTrue
  | some false => onFalse
  | none => Fallible.raise (.runtimeError "Value returned from condition node is not a boolean.")

def evaluateNode : Node → Eval S Value
  | .notSet => Fallible.raise (.domainError "Unknown case when parsing OpCase.")
  | .const heldValue => pure heldValue
  | .retrieve retrieveAttr => onStore (retrieve retrieveAttr)
  | .mutate _ _ =>
    Fallible.raise (.logicError "Node to evaluate should not modify any attribute.")
  | .switch conditionNode trueNode falseNode => do
    let conditionVal ← evaluateNode conditionNode
    choose conditionVal (evaluateNode trueNode) (evaluateNode falseNode)
  | .unary op x => do
    let xVal ← evaluateNode x
    Fallible.ofExcept (unaryOp F op xVal)
  | .binary op x y => do
    let xVal ← evaluateNode x
    let yVal ← evaluateNode y
    Fallible.ofExcept (binaryOp F op xVal yVal)
  | .random low high => do
    let lowVal ← evaluateNode low
    let highVal ← evaluateNode high
    onGenerator (randomOp F lowVal highVal)

def mutateOp (node : Mutate) : Eval S Unit := do
  let val ← evaluateNode F node.toNode
  onStore (assign F node.mutateAttr val)

/-- Runs the outputs in order. The inputs of the graph are not looked at. -/
def runGraph (graph : Graph) : Eval S Unit :=
  Fallible.forEach (mutateOp F) graph.outputs

/-! ## Invariants of evaluation -/

section Invariants
variable {P : Env S → Prop}

omit [AttributeStore S] in
theorem choose_keeps {α : Type} {onTrue onFalse : Eval S α} (ht : Fallible.Keeps P onTrue)
    (hf : Fallible.Keeps P onFalse) (v : Value) : Fallible.Keeps P (choose v onTrue onFalse) := by
  rw [choose]
  split
  · exact ht
  · exact hf
  · exact fun _ h => h

/-- **Evaluation keeps what reading keeps**, and drawing if it draws. -/
theorem evaluateNode_keeps_of {n : Node}
    (hretrieve : ∀ ref, Fallible.Keeps P (onStore (retrieve ref)))
    (hrandom : n.randomFree = false → ∀ v w, Fallible.Keeps P (onGenerator (randomOp F v w))) :
    Fallible.Keeps P (evaluateNode F n) := by
  induction n with
  | notSet => exact fun _ h => h
  | const v => exact fun _ h => h
  | retrieve r => exact hretrieve r
  | mutate r n _ => exact fun _ h => h
  | switch c t f hc ht hf =>
    refine (hc fun h => hrandom (by simp [Node.randomFree, h])).bind fun v => ?_
    exact choose_keeps (ht fun h => hrandom (by simp [Node.randomFree, h]))
      (hf fun h => hrandom (by simp [Node.randomFree, h])) v
  | unary op x hx => exact (hx hrandom).bind fun v => Fallible.Keeps.ofExcept _
  | binary op x y hx hy =>
    refine (hx fun h => hrandom (by simp [Node.randomFree, h])).bind fun v => ?_
    exact (hy fun h => hrandom (by simp [Node.randomFree, h])).bind fun w =>
      Fallible.Keeps.ofExcept _
  | random l u hl hu =>
    exact (hl fun _ => hrandom rfl).bind fun v => (hu fun _ => hrandom rfl).bind fun w =>
      hrandom rfl v w

end Invariants

/-! ## Refinement of one store by another -/

/-- Through `view`, reading and writing on states with `P` is reading and writing on `T`. -/
structure StoreRefines {T : Type} [AttributeStore T] (P : S → Prop) (view : S → T) : Prop where
  retrieve : ∀ ref, Fallible.Refines P view (retrieve ref) (retrieve ref)
  assign : ∀ F ref v, Fallible.Refines P view (assign F ref v) (assign F ref v)

def Env.map {T : Type} (view : S → T) (s : Env S) : Env T := ⟨view s.store, s.gen⟩

section Refinement
variable {T : Type} [AttributeStore T] {P : S → Prop} {view : S → T} {α : Type}

omit [AttributeStore S] [AttributeStore T] in
theorem onStore_refines {m : Fallible S Fault α} {m' : Fallible T Fault α}
    (h : Fallible.Refines P view m m') :
    Fallible.Refines (fun s => P s.store) (Env.map view) (onStore m) (onStore m') := by
  intro s hs
  obtain ⟨h₁, h₂, h₃⟩ := h s.store hs
  exact ⟨h₁, congrArg (fun t => Env.mk t s.gen) h₂, h₃⟩

omit [AttributeStore S] [AttributeStore T] in
theorem choose_refines {Q : Env S → Prop} {look : Env S → Env T} {m₁ m₂ : Eval S α}
    {m₁' m₂' : Eval T α} (h₁ : Fallible.Refines Q look m₁ m₁')
    (h₂ : Fallible.Refines Q look m₂ m₂') (v : Value) :
    Fallible.Refines Q look (choose v m₁ m₂) (choose v m₁' m₂') := by
  unfold choose
  split
  · exact h₁
  · exact h₂
  · exact fun s hs => ⟨rfl, rfl, hs⟩

/-- **Evaluation is refined** along with the store. -/
theorem evaluateNode_refines (h : StoreRefines P view) (n : Node) :
    Fallible.Refines (fun s => P s.store) (Env.map view) (evaluateNode F n) (evaluateNode F n) := by
  induction n with
  | notSet => exact fun s hs => ⟨rfl, rfl, hs⟩
  | const v => exact fun s hs => ⟨rfl, rfl, hs⟩
  | retrieve r => exact onStore_refines (h.retrieve r)
  | mutate r n _ => exact fun s hs => ⟨rfl, rfl, hs⟩
  | switch c t f hc ht hf => exact hc.bind fun v => choose_refines ht hf v
  | unary op x hx => exact hx.bind fun v => Fallible.Refines.ofExcept _
  | binary op x y hx hy => exact hx.bind fun v => hy.bind fun w => Fallible.Refines.ofExcept _
  | random l u hl hu =>
    exact hl.bind fun v => hu.bind fun w => fun s hs => ⟨rfl, rfl, hs⟩

theorem mutateOp_refines (h : StoreRefines P view) (node : Mutate) :
    Fallible.Refines (fun s => P s.store) (Env.map view) (mutateOp F node) (mutateOp F node) :=
  (evaluateNode_refines F h node.toNode).bind fun v => onStore_refines (h.assign F _ v)

/-- **Running a graph is refined** along with the store. -/
theorem runGraph_refines (h : StoreRefines P view) (graph : Graph) :
    Fallible.Refines (fun s => P s.store) (Env.map view) (runGraph F graph) (runGraph F graph) :=
  Fallible.Refines.forEach (mutateOp_refines F h) graph.outputs

end Refinement
end Bentobox
