import Bentobox.Engine.Atomicity
import Bentobox.Engine.Isolation
import Bentobox.Engine.Resolution

/-!
# A stepped simulation is frozen

The first step locks a simulation, and nothing unlocks it: an application meets the
lock, and every other handler either leaves the simulation, drops it, or puts it
back with another store in which the same components are found.
-/
namespace Bentobox

open AttributeStore SimulationStore

namespace Engine
variable {F : FloatOps} {name : String}

/-- The simulation is registered and locked, with the given definition and components. -/
def Frozen (name : String) (d : SimulationDef) (s₀ : Stores) (e : Engine Stores) : Prop :=
  ∃ sim, e.sims.get? name = some sim ∧ sim.locked = true ∧ sim.simDef = d ∧ s₀.Resolves sim.store

/-- Running on the store of a simulation does not thaw it. -/
theorem Frozen.runOn {α : Type} {m : Eval Stores α} {d : SimulationDef} {s₀ : Stores}
    (hm : Fallible.Keeps (fun s : Env Stores => s₀.Resolves s.store) m) (sim : Simulation Stores)
    (hs : s₀.Resolves sim.store) (hlock : sim.locked = true) (hdef : sim.simDef = d)
    (e : Engine Stores) : Frozen name d s₀ (Engine.runOn m name sim e).2 :=
  ⟨_, OrderedDict.get?_insert_self _ _ _, hlock, hdef, hm ⟨sim.store, e.gen⟩ hs⟩

theorem runSystems_keeps (s₀ : Stores) (systems : List SystemDef) :
    Fallible.Keeps (fun s : Env Stores => s₀.Resolves s.store) (runSystems F systems) :=
  (runSystems_refines F (Stores.resolves_refines s₀) systems).keeps

/-- **No request but a drop** thaws a simulation. -/
theorem Frozen.step {d : SimulationDef} {s₀ : Stores} {e e' : Engine Stores}
    (he : Frozen name d s₀ e) {r : Request} (hr : r ≠ .dropSimulation name) {o : Response}
    (h : Engine.step F e r = some (o, e')) : Frozen name d s₀ e' := by
  cases hn : r.names name with
  | false =>
    obtain ⟨sim, hsim, hfrozen⟩ := he
    exact ⟨sim, (get?_step hn h).trans hsim, hfrozen⟩
  | true =>
    have he' := he
    obtain ⟨sim, hsim, hlock, hdef, hs⟩ := he
    cases step_transition F h with
    | idle _ => exact he'
    | @created d' _ _ hunlocked _ =>
      obtain rfl : d'.name = name := by simpa [Request.names] using hn
      exact absurd (by simp [hsim, hlock]) hunlocked
    | @dropped n _ _ =>
      obtain rfl : n = name := by simpa [Request.names] using hn
      exact absurd rfl hr
    | @stepped n _ hget =>
      obtain rfl : n = name := by simpa [Request.names] using hn
      cases hsim.symm.trans hget
      exact Frozen.runOn (runSystems_keeps s₀ sim.simDef.systems) { sim with locked := true } hs rfl
        hdef e
    | @retrieved n ref _ hget =>
      obtain rfl : n = name := by simpa [Request.names] using hn
      cases hsim.symm.trans hget
      exact Frozen.runOn (onStore_refines ((Stores.resolves_refines s₀).retrieve ref)).keeps sim
        hs hlock hdef e
    | @assigned n ref v _ hget =>
      obtain rfl : n = name := by simpa [Request.names] using hn
      cases hsim.symm.trans hget
      exact Frozen.runOn (mutateOp_refines F (Stores.resolves_refines s₀) ⟨ref, .const v⟩).keeps
        sim hs hlock hdef e

/-- A step on an existing simulation locks it, whether it succeeds or fails. -/
theorem frozen_stepSimulation {e e' : Engine Stores} {sim : Simulation Stores}
    (hsim : e.sims.get? name = some sim) (hwf : sim.store.Wf) {o : Response}
    (h : step F e (.stepSimulation name) = some (o, e')) :
    Frozen name sim.simDef sim.store e' := by
  simp only [step, stepSimulation, hsim] at h
  rw [answer_state h]
  exact Frozen.runOn (runSystems_keeps sim.store sim.simDef.systems) { sim with locked := true }
    (.refl hwf) rfl rfl e

/-- The answer to an application and the simulation registered by it. -/
def applied (F : FloatOps) (e : Engine Stores) (d : SimulationDef) :
    Option (Response × Option (Simulation Stores)) :=
  (step F e (.applySimulation d)).map fun r => (r.1, r.2.sims.get? d.name)

/-- An application to a name that is not registered works as on a fresh engine. -/
theorem applied_of_absent {e : Engine Stores} {d : SimulationDef}
    (h : e.sims.get? d.name = none) : applied F e d = applied F (new e.gen) d := by
  obtain ⟨stores, hc, -⟩ := construct_spec d
  have hcon := construct_stores hc
  simp only [applied, step, applySimulation, h, new, OrderedDict.get?_empty, Option.map_none,
    Option.getD_none, hcon, createSimulation, Bool.false_eq_true, if_false]
  rcases hr : runGraph F d.withIds.initGraph ⟨stores, e.gen⟩ with ⟨(x | x) | ⟨⟩, s⟩ <;>
    simp [answer, runOn, register, hr]

/-- A name that is not registered stays so until an application of it. -/
theorem get?_run_of_not_applied {e e' : Engine Stores} {requests : List Request}
    {responses : List Response} (h : e.sims.get? name = none)
    (hno : ∀ d, .applySimulation d ∈ requests → d.name ≠ name)
    (hrun : run F e requests = some (responses, e')) : e'.sims.get? name = none := by
  have halong : Machine.Along (step F) (fun (_ : Engine Stores) (r : Request) =>
      ∀ d, r = .applySimulation d → d.name ≠ name) e requests := by
    refine Machine.along_of_mem (fun _ r hr => ?_) e
    rintro d rfl
    exact hno d hr
  refine Machine.invariant_of_along (P := fun e => e.sims.get? name = none)
    (fun e r o e' he hr hstep => ?_) h halong hrun
  cases hn : r.names name with
  | false => exact (get?_step hn hstep).trans he
  | true =>
    cases step_transition F hstep with
    | idle _ => exact he
    | @created d _ _ _ _ => exact absurd (by simpa [Request.names] using hn) (hr d rfl)
    | @dropped n _ hget | @stepped n _ hget | @retrieved n _ _ hget | @assigned n _ _ _ hget =>
      obtain rfl : n = name := by simpa [Request.names] using hn
      cases he.symm.trans hget

/-- **A stepped simulation is frozen** until it is dropped: applications of its name are rejected
and change nothing, its definition is the same, and every reference leads to the same object with
the same definition. After the drop, the next application starts as on a fresh engine. -/
theorem frozen_until_drop {e e₁ e₂ : Engine Stores} (he : e.Reachable F) {sim : Simulation Stores}
    (hsim : e.sims.get? name = some sim) {o : Response}
    (hstep : step F e (.stepSimulation name) = some (o, e₁)) {requests : List Request}
    (hno : .dropSimulation name ∉ requests) {responses : List Response}
    (hrun : run F e₁ requests = some (responses, e₂)) :
    (∀ d : SimulationDef, d.name = name → step F e₂ (.applySimulation d) =
      some (.error .alreadyExists "The simulation has been created and stepped at least once.",
        e₂)) ∧
    step F e₂ (.getSimulation name) = some (.simulation sim.simDef, e₂) ∧
    (∃ sim₂, e₂.sims.get? name = some sim₂ ∧
      (∀ n id, sim₂.store.location n id = sim.store.location n id) ∧
      sim₂.store.view.layout = sim.store.view.layout) ∧
    ∀ o' e₃ later responses' e₄ (d : SimulationDef),
      step F e₂ (.dropSimulation name) = some (o', e₃) →
      (∀ d', .applySimulation d' ∈ later → d'.name ≠ name) →
      run F e₃ later = some (responses', e₄) → d.name = name →
      applied F e₄ d = applied F (new e₄.gen) d := by
  have halong : Machine.Along (step F) (fun (_ : Engine Stores) r => r ≠ .dropSimulation name)
      e₁ requests := by
    refine Machine.along_of_mem (fun _ r hr => ?_) e₁
    rintro rfl
    exact hno hr
  have hfrozen : Frozen name sim.simDef sim.store e₂ :=
    Machine.invariant_of_along (fun _ _ _ _ h hr hs => h.step hr hs)
      (frozen_stepSimulation hsim (he.wf name sim hsim) hstep) halong hrun
  obtain ⟨sim₂, hsim₂, hlock, hdef, hres⟩ := hfrozen
  refine ⟨fun d hd => ?_, ?_, ⟨sim₂, hsim₂, hres.location, hres.layout⟩, ?_⟩
  · subst hd
    simp only [step, applySimulation, hsim₂, Option.map_some, hlock, Option.getD_some, if_true]
  · simp only [step, getSimulation, hsim₂, hdef]
  · intro o' e₃ later responses' e₄ d hdrop hlater hrun' hd
    have habsent : e₃.sims.get? name = none := by
      simp only [step, dropSimulation, hsim₂] at hdrop
      cases hdrop
      exact OrderedDict.get?_erase_self _ _
    subst hd
    exact applied_of_absent (get?_run_of_not_applied habsent hlater hrun')

/-- `twoCells` after a step that fails, a write and a drop. -/
theorem frozen_until_drop_twoCells : ∃ o e₁ responses e₂,
    step default (afterApply (twoCells false)) (.stepSimulation "s") = some (o, e₁) ∧
    run default e₁ [.setAttribute "s" ⟨1, "C", "b"⟩ (setVal (.number (.int32 3)))] =
      some (responses, e₂) ∧
    step default e₂ (.applySimulation (twoCells true)) = some (.error .alreadyExists
      "The simulation has been created and stepped at least once.", e₂) ∧
    step default e₂ (.getSimulation "s") = some (.simulation (twoCells false), e₂) := by
  have hreach : (afterApply (twoCells false)).Reachable default :=
    ⟨0, [.applySimulation (twoCells false)], _, rfl⟩
  have hsim : (afterApply (twoCells false)).sims.get? "s" =
      some ⟨twoCells false, _, false⟩ := rfl
  obtain ⟨happly, hget, -⟩ := @frozen_until_drop default "s" _ _ _ hreach _ hsim _ rfl
    [.setAttribute "s" ⟨1, "C", "b"⟩ (setVal (.number (.int32 3)))] (by simp) _ rfl
  exact ⟨_, _, _, _, rfl, rfl, happly (twoCells true) rfl, hget⟩

end Engine
end Bentobox
