import Bentobox.Lib.History
import Bentobox.Engine.Atomicity

/-!
# The answers of an engine as a function of its history

The history of a run lists which simulations were created and dropped and which
mutations succeeded, with the value that the node of the mutation had. It is read
off the engine step by step. What `GetAttribute` answers is determined by it: the
latest mutation of the attribute since its simulation was created, converted to the
type declared for the attribute.
-/
namespace Bentobox

open AttributeStore SimulationStore

inductive Event
  | created (simName : String)
  | dropped (simName : String)
  | mutated (simName : String) (attr : AttributeRef) (value : Value)

/-- What an event does to an attribute of a simulation: clear it, set it, or nothing. -/
def Event.effect (ev : Event) (key : String × AttributeRef) : Option (Option Value) :=
  match ev with
  | created n => if n = key.1 then some none else none
  | dropped n => if n = key.1 then some none else none
  | mutated n attr v => if (n, attr) = key then some (some v) else none

/-! ## The events of a request -/

section Events
variable (F : FloatOps) {S : Type}

/-- The mutations that succeed when outputs are run in order, up to one that fails. -/
def mutations [AttributeStore S] : List Mutate → Env S → List (AttributeRef × Value)
  | [], _ => []
  | o :: os, s =>
    match evaluateNode F o.toNode s with
    | (.error _, _) => []
    | (.ok v, s₁) =>
      match onStore (assign F o.mutateAttr v) s₁ with
      | (.error _, _) => []
      | (.ok _, s₂) => (o.mutateAttr, v) :: mutations os s₂

def mutatedEvents (name : String) (ms : List (AttributeRef × Value)) : List Event :=
  ms.map fun m => .mutated name m.1 m.2

/-- What happens at a request to which the engine has an answer. -/
def events [SimulationStore S] (e : Engine S) : Request → List Event
  | .applySimulation d =>
    if ((e.sims.get? d.name).map Simulation.locked).getD false then []
    else match (construct d : Except Fault (SimulationDef × S)) with
      | .error _ => []
      | .ok r => .created d.name ::
          mutatedEvents d.name (mutations F r.1.initGraph.outputs ⟨r.2, e.gen⟩)
  | .dropSimulation name =>
    match e.sims.get? name with
    | some _ => [.dropped name]
    | none => []
  | .stepSimulation name =>
    match e.sims.get? name with
    | some sim => mutatedEvents name
        (mutations F (outputsOf sim.simDef.systems) ⟨sim.store, e.gen⟩)
    | none => []
  | .setAttribute name attr value =>
    match e.sims.get? name with
    | some sim => mutatedEvents name (mutations F [⟨attr, .const value⟩] ⟨sim.store, e.gen⟩)
    | none => []
  | .getSimulation _ | .listSimulation | .getAttribute _ _ => []

/-- Nothing happens at a request that leaves nothing to do. -/
theorem events_of_idle [SimulationStore S] {e : Engine S} {r : Request} (h : e.Idle r) :
    events F e r = [] := by
  cases r with
  | applySimulation d =>
    rcases h with hlock | ⟨x, hc⟩
    · exact if_pos hlock
    · simp only [events, hc, ite_self]
  | dropSimulation name | stepSimulation name | setAttribute name _ _ =>
    simp only [Engine.Idle] at h
    simp only [events, h]
  | getSimulation _ | listSimulation | getAttribute _ _ => rfl

/-- What happens in a run, oldest first. -/
def history [SimulationStore S] : Engine S → List Request → List Event
  | _, [] => []
  | e, r :: rs =>
    match Engine.step F e r with
    | some (_, e') => events F e r ++ history e' rs
    | none => []

end Events

section Refinement
variable (F : FloatOps) {S T : Type} {P : S → Prop} {view : S → T}

/-- The mutations do not depend on how attributes are stored. -/
theorem mutations_map [AttributeStore S] [AttributeStore T] (h : StoreRefines P view)
    (os : List Mutate) {s : Env S} (hs : P s.store) :
    mutations F os (s.map view) = mutations F os s := by
  induction os generalizing s with
  | nil => rfl
  | cons o os ih =>
    have hev := evaluateNode_refines F h o.toNode
    have hev' := hev.eq hs
    have hP := hev.keeps s hs
    rcases hv : evaluateNode F o.toNode s with ⟨x | v, s₁⟩
    · rw [hv] at hev'
      simp only [mutations, hv, hev']
    · rw [hv] at hev' hP
      have has := onStore_refines (h.assign F o.mutateAttr v)
      have has' := has.eq hP
      have hP' := has.keeps s₁ hP
      rcases hw : onStore (assign F o.mutateAttr v) s₁ with ⟨x | ⟨⟩, s₂⟩
      · rw [hw] at has'
        simp only [mutations, hv, hev', hw, has']
      · rw [hw] at has' hP'
        simp only [mutations, hv, hev', hw, has', ih hP']

variable [SimulationStore S] [SimulationStore T]

theorem events_map (h : SimulationRefines P view) {e : Engine S} (he : e.All P) (r : Request) :
    events F (e.map view) r = events F e r := by
  have hst := h.toStoreRefines
  cases r with
  | applySimulation d =>
    simp only [events, Engine.get?_map, Option.map_map]
    have hlock : (Simulation.locked ∘ Simulation.map view : Simulation S → Bool) =
        Simulation.locked := rfl
    rw [hlock, h.construct_eq]
    split_ifs
    · rfl
    · cases hc : (construct d : Except Fault (SimulationDef × S)) with
      | error x => rfl
      | ok r =>
        exact congrArg (fun ms => Event.created d.name :: mutatedEvents d.name ms)
          (mutations_map F hst _ (s := ⟨r.2, e.gen⟩) (h.constructed d r.1 r.2 hc))
  | dropSimulation name =>
    simp only [events, Engine.get?_map]
    cases e.sims.get? name <;> rfl
  | stepSimulation name =>
    simp only [events, Engine.get?_map]
    cases hs : e.sims.get? name with
    | none => rfl
    | some sim =>
      exact congrArg (mutatedEvents name)
        (mutations_map F hst _ (s := ⟨sim.store, e.gen⟩) (he name sim hs))
  | setAttribute name attr v =>
    simp only [events, Engine.get?_map]
    cases hs : e.sims.get? name with
    | none => rfl
    | some sim =>
      exact congrArg (mutatedEvents name)
        (mutations_map F hst _ (s := ⟨sim.store, e.gen⟩) (he name sim hs))
  | getSimulation _ | listSimulation | getAttribute _ _ => rfl

theorem history_map (h : SimulationRefines P view) {e : Engine S} (he : e.All P)
    (requests : List Request) : history F (e.map view) requests = history F e requests := by
  induction requests generalizing e with
  | nil => rfl
  | cons r rs ih =>
    rw [history, history, Engine.step_map F h he, events_map F h he]
    cases hr : Engine.step F e r with
    | none => rfl
    | some p =>
      have he' : p.2.All P := Engine.step_all F h he hr
      simp only [Option.map_some, ih he']

end Refinement
end Bentobox
