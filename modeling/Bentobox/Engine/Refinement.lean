import Bentobox.Engine.Service

/-!
# The engine refines maps of attributes

The abstract engine keeps one `AttributeMap` for every simulation. A refinement of
stores lifts to engines: through the view of the stores, every request gets the
answer of the abstract engine and leads to the state the abstract engine reaches.
-/
namespace Bentobox

open AttributeStore SimulationStore

/-- A refinement of stores that respects construction. -/
structure SimulationRefines {S T : Type} [SimulationStore S] [SimulationStore T] (P : S → Prop)
    (view : S → T) : Prop extends StoreRefines P view where
  construct_eq : ∀ d, (construct d : Except Fault (SimulationDef × T)) =
    (fun r => (r.1, view r.2)) <$> construct d
  constructed : ∀ (d d' : SimulationDef) (s : S), construct d = .ok (d', s) → P s

/-- A simulation starts without any value, on the layout its stores have. -/
instance : SimulationStore AttributeMap where
  construct d := (fun r => (r.1, r.2.view)) <$> Stores.construct d

theorem construct_view {d : SimulationDef} {stores : Stores}
    (h : Stores.construct d = .ok (d.withIds, stores)) :
    construct d = .ok (d.withIds, stores.view) := by
  change (fun r => (r.1, r.2.view)) <$> Stores.construct d = _
  rw [h, Fallible.map_ok]

theorem stores_refine_simulation : SimulationRefines Stores.Wf Stores.view where
  toStoreRefines := Stores.stores_refine_map
  construct_eq _ := rfl
  constructed d d' s h := by
    obtain ⟨stores, hc, hwf, -, -⟩ := construct_spec d
    rw [show construct d = Stores.construct d from rfl, hc] at h
    cases h
    exact hwf

def Simulation.map {S T : Type} (view : S → T) (sim : Simulation S) : Simulation T :=
  ⟨sim.simDef, view sim.store, sim.locked⟩

/-- What a store answers when an attribute is read. -/
def reading {S : Type} [AttributeStore S] (s : S) (ref : AttributeRef) : Except Fault Value :=
  (retrieve ref s).1

theorem reading_map (m : AttributeMap) (ref : AttributeRef) : reading m ref = m.get ref := rfl

/-- Consistent stores answer as their map does. -/
theorem reading_eq_get {s : Stores} (hs : s.Wf) (ref : AttributeRef) :
    reading s ref = s.view.get ref :=
  (Stores.stores_refine_map.retrieve ref s hs).1

namespace Engine
variable (F : FloatOps) {S T : Type} {α : Type} {P : S → Prop} {view : S → T}

def map (view : S → T) (e : Engine S) : Engine T := ⟨e.sims.map (Simulation.map view), e.gen⟩

/-- The stores of every simulation meet `P`. -/
def All (P : S → Prop) (e : Engine S) : Prop :=
  ∀ name sim, e.sims.get? name = some sim → P sim.store

theorem get?_map (view : S → T) (e : Engine S) (name : String) :
    (e.map view).sims.get? name = (e.sims.get? name).map (Simulation.map view) :=
  OrderedDict.get?_map _ _ _

theorem All.new (gen : ℕ) : (new gen : Engine S).All P := by
  intro name sim h
  cases h

theorem All.insert {e : Engine S} (he : e.All P) {sim : Simulation S} (hs : P sim.store)
    (name : String) (gen : ℕ) : (⟨e.sims.insert name sim, gen⟩ : Engine S).All P := by
  intro n s h
  rw [OrderedDict.get?_insert] at h
  split_ifs at h
  · cases h; exact hs
  · exact he n s h

theorem All.erase {e : Engine S} (he : e.All P) (name : String) :
    ({ e with sims := e.sims.erase name } : Engine S).All P := by
  intro n s h
  rw [OrderedDict.get?_erase] at h
  split_ifs at h
  exact he n s h

theorem register_map (e : Engine S) (name : String) (sim : Simulation S) (s : Env S) :
    (e.map view).register name (sim.map view) (s.map view) = (e.register name sim s).map view := by
  simp only [register, map, OrderedDict.map_insert]
  rfl

/-- Running on a simulation commutes with the view. -/
theorem runOn_map {m : Eval S α} {m' : Eval T α}
    (h : Fallible.Refines (fun s => P s.store) (Env.map view) m m') {sim : Simulation S}
    (hs : P sim.store) {e : Engine S} (he : e.All P) (name : String) :
    runOn m' name (sim.map view) (e.map view) =
        ((runOn m name sim e).1, (runOn m name sim e).2.map view) ∧
      (runOn m name sim e).2.All P := by
  obtain ⟨h₁, h₂, hP⟩ := h ⟨sim.store, e.gen⟩ hs
  refine ⟨Prod.ext h₁.symm ?_, he.insert hP name _⟩
  exact (congrArg ((e.map view).register name (sim.map view)) h₂.symm).trans
    (register_map e name sim _)

theorem answer_map (onReturn : α → Response) (onCatch : Exception → Response)
    (r : Except Fault α × Engine S) : answer onReturn onCatch (r.1, r.2.map view) =
      (answer onReturn onCatch r).map fun p => (p.1, p.2.map view) := by
  obtain ⟨_ | a, e⟩ := r
  · rename_i x
    cases x <;> rfl
  · rfl

theorem answer_all {onReturn : α → Response} {onCatch : Exception → Response}
    {r : Except Fault α × Engine S} (hr : r.2.All P) {o : Response} {e' : Engine S}
    (h : answer onReturn onCatch r = some (o, e')) : e'.All P := by
  rw [answer] at h
  split at h
  · cases h; exact hr
  · cases h; exact hr
  · cases h

variable [SimulationStore S] [SimulationStore T]

theorem runSystems_refines (h : StoreRefines P view) (systems : List SystemDef) :
    Fallible.Refines (fun s => P s.store) (Env.map view) (runSystems F systems)
      (runSystems F systems) := by
  have hsys : ∀ system : SystemDef, Fallible.Refines (fun s => P s.store) (Env.map view)
      (runSystem F system) (runSystem F system) :=
    fun system => (runGraph_refines F h system.graph).mapFault _
  exact Fallible.Refines.forEach hsys systems

/-- What the two engines have in common at a request. -/
private theorem step_refines (h : SimulationRefines P view) {e : Engine S} (he : e.All P)
    (r : Request) :
    step F (e.map view) r = (step F e r).map (fun p => (p.1, p.2.map view)) ∧
      ∀ o e', step F e r = some (o, e') → e'.All P := by
  have hst := h.toStoreRefines
  -- a handler that runs on one registered simulation
  have hrun : ∀ {β : Type} (m : Eval S β) (m' : Eval T β) onReturn onCatch name sim,
      Fallible.Refines (fun s => P s.store) (Env.map view) m m' → P sim.store →
      answer onReturn onCatch (runOn m' name (sim.map view) (e.map view)) =
        (answer onReturn onCatch (runOn m name sim e)).map (fun p => (p.1, p.2.map view)) ∧
      ∀ o e', answer onReturn onCatch (runOn m name sim e) = some (o, e') → e'.All P := by
    intro β m m' onReturn onCatch name sim hm hs
    obtain ⟨h₁, h₂⟩ := runOn_map hm hs he name
    exact ⟨by rw [h₁, answer_map], fun o e' => answer_all h₂⟩
  cases r with
  | applySimulation d =>
    simp only [step, applySimulation, get?_map, Option.map_map]
    have hlock : (Simulation.locked ∘ Simulation.map view : Simulation S → Bool) =
        Simulation.locked := rfl
    rw [hlock, h.construct_eq]
    split_ifs
    · exact ⟨rfl, fun o e' heq => by cases heq; exact he⟩
    · cases hc : (construct d : Except Fault (SimulationDef × S)) with
      | error x =>
        cases x with
        | exception x => exact ⟨rfl, fun o e' heq => by cases heq; exact he⟩
        | undefined => exact ⟨rfl, fun o e' heq => by cases heq⟩
      | ok r =>
        exact hrun _ _ _ _ d.name ⟨r.1, r.2, false⟩ (runGraph_refines F hst _)
          (h.constructed d r.1 r.2 hc)
  | getSimulation name =>
    simp only [step, getSimulation, get?_map]
    cases e.sims.get? name <;> exact ⟨rfl, fun o e' heq => by cases heq; exact he⟩
  | listSimulation =>
    refine ⟨?_, fun o e' heq => by cases heq; exact he⟩
    simp only [step, listSimulation, map, OrderedDict.keys_map, Option.map_some]
  | dropSimulation name =>
    simp only [step, dropSimulation, get?_map]
    cases e.sims.get? name with
    | none => exact ⟨rfl, fun o e' heq => by cases heq; exact he⟩
    | some sim =>
      refine ⟨?_, fun o e' heq => by cases heq; exact he.erase name⟩
      simp only [map, Option.map_some, OrderedDict.map_erase]
  | stepSimulation name =>
    simp only [step, stepSimulation, get?_map]
    cases hs : e.sims.get? name with
    | none => exact ⟨rfl, fun o e' heq => by cases heq; exact he⟩
    | some sim =>
      exact hrun _ _ _ _ name { sim with locked := true }
        (runSystems_refines F hst sim.simDef.systems) (he name sim hs)
  | getAttribute name attr =>
    simp only [step, getAttribute, get?_map]
    cases hs : e.sims.get? name with
    | none => exact ⟨rfl, fun o e' heq => by cases heq; exact he⟩
    | some sim =>
      exact hrun _ _ _ _ name sim (onStore_refines (hst.retrieve attr)) (he name sim hs)
  | setAttribute name attr v =>
    simp only [step, setAttribute, get?_map]
    cases hs : e.sims.get? name with
    | none => exact ⟨rfl, fun o e' heq => by cases heq; exact he⟩
    | some sim =>
      exact hrun _ _ _ _ name sim (mutateOp_refines F hst ⟨attr, .const v⟩) (he name sim hs)

theorem step_map (h : SimulationRefines P view) {e : Engine S} (he : e.All P) (r : Request) :
    step F (e.map view) r = (step F e r).map fun p => (p.1, p.2.map view) :=
  (step_refines F h he r).1

theorem step_all (h : SimulationRefines P view) {e : Engine S} (he : e.All P) {r : Request}
    {o : Response} {e' : Engine S} (hr : step F e r = some (o, e')) : e'.All P :=
  (step_refines F h he r).2 o e' hr

/-- **Refinement over whole runs**: every run of the engine is a run of the engine on the
abstract stores, with the same answers. -/
theorem run_map (h : SimulationRefines P view) {e : Engine S} (he : e.All P)
    (requests : List Request) :
    run F (e.map view) requests = (run F e requests).map fun p => (p.1, p.2.map view) :=
  Machine.run_view (fun _ r he => step_map F h he r) (fun _ _ _ _ he => step_all F h he) he
    requests

theorem Reachable.all (h : SimulationRefines P view) {e : Engine S} (he : e.Reachable F) :
    e.All P := by
  obtain ⟨gen, requests, responses, hr⟩ := he
  exact Machine.invariant (fun _ _ _ _ he => step_all F h he) (All.new gen) hr

/-- What a reachable engine becomes is reachable. -/
theorem Reachable.step {e e' : Engine S} (he : e.Reachable F) {r : Request} {o : Response}
    (h : step F e r = some (o, e')) : e'.Reachable F := by
  obtain ⟨gen, requests, responses, hr⟩ := he
  refine ⟨gen, requests ++ [r], responses ++ [o], ?_⟩
  exact Machine.run_append_eq_some_iff.mpr ⟨responses, e, [o], hr,
    Machine.run_cons_eq_some_iff.mpr ⟨o, e', [], h, rfl, rfl⟩, rfl⟩

end Engine

namespace Engine

/-- The engine seen as one map of attributes for each simulation. -/
def view (e : Engine Stores) : Engine AttributeMap := e.map Stores.view

variable {F : FloatOps} {e e' : Engine Stores} {r : Request} {o : Response}

/-- Every simulation of a reachable engine has consistent stores. -/
theorem Reachable.wf (he : e.Reachable F) : e.All Stores.Wf :=
  he.all F stores_refine_simulation

theorem get?_view {name : String} {sim : Simulation Stores} (hs : e.sims.get? name = some sim) :
    e.view.sims.get? name = some (sim.map Stores.view) := by
  rw [view, get?_map, hs, Option.map_some]

/-- A request answered on the stores is answered on the maps. -/
theorem step_view (he : e.All Stores.Wf) (h : step F e r = some (o, e')) :
    step F e.view r = some (o, e'.view) := by
  rw [view, step_map F stores_refine_simulation he, h]
  rfl

/-- A request answered on the maps is answered on the stores. -/
theorem step_of_view (he : e.All Stores.Wf) {m : Engine AttributeMap}
    (h : step F e.view r = some (o, m)) :
    ∃ e', step F e r = some (o, e') ∧ e'.view = m ∧ e'.All Stores.Wf := by
  rw [view, step_map F stores_refine_simulation he, Option.map_eq_some_iff] at h
  obtain ⟨⟨o', e'⟩, hstep, heq⟩ := h
  cases heq
  exact ⟨e', hstep, rfl, step_all F stores_refine_simulation he hstep⟩

end Engine
end Bentobox
