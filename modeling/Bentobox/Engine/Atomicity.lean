import Bentobox.Engine.Refinement

/-!
# What a failing request leaves behind

Outputs are stored one by one and nothing is rolled back. A failing
`StepSimulation` or `ApplySimulation` therefore has the effect of the outputs in
front of the one that failed, and of nothing else.
-/
namespace Bentobox

open AttributeStore SimulationStore

/-- The outputs of systems in the order in which a step runs them. -/
def outputsOf (systems : List SystemDef) : List Mutate :=
  systems.flatMap fun system => system.graph.outputs

section Prefix
variable (F : FloatOps) {S : Type} [AttributeStore S]

/-- Running systems to their end is running their outputs. -/
theorem runSystems_ok {systems : List SystemDef} {s s' : Env S}
    (h : Engine.runSystems F systems s = (.ok (), s')) :
    Fallible.forEach (mutateOp F) (outputsOf systems) s = (.ok (), s') := by
  induction systems generalizing s with
  | nil => exact h
  | cons system systems ih =>
    obtain ⟨⟨⟩, s₁, hsys, hrest⟩ := Fallible.bind_eq_ok_iff.mp h
    exact Fallible.forEach_append_eq_ok_iff.mpr
      ⟨s₁, Fallible.mapFault_eq_ok_iff.mp hsys, ih hrest⟩

/-- Running systems ends where running their outputs ends. -/
theorem runSystems_state (systems : List SystemDef) (s : Env S) :
    (Engine.runSystems F systems s).2 =
      (Fallible.forEach (mutateOp F) (outputsOf systems) s).2 := by
  induction systems generalizing s with
  | nil => rfl
  | cons system systems ih =>
    have hout : outputsOf (system :: systems) = system.graph.outputs ++ outputsOf systems := rfl
    rw [hout]
    rcases hsys : runGraph F system.graph s with ⟨x | ⟨⟩, s₁⟩
    · have hfail : Engine.runSystem F system s = (.error _, s₁) :=
        Fallible.mapFault_eq_error_iff.mpr ⟨x, hsys, rfl⟩
      have hrun : Engine.runSystems F (system :: systems) s = (.error _, s₁) :=
        Fallible.run_bind_of_error hfail
      rw [hrun, Fallible.forEach_append_of_error _ hsys]
    · have hok : Engine.runSystem F system s = (.ok (), s₁) :=
        Fallible.mapFault_eq_ok_iff.mpr hsys
      have hrun : Engine.runSystems F (system :: systems) s = Engine.runSystems F systems s₁ :=
        Fallible.run_bind_of_ok hok
      rw [hrun, Fallible.forEach_append_of_ok _ hsys, ih]

/-- Running systems fails at one output, after all outputs in front of it were stored. -/
theorem runSystems_error {systems : List SystemDef} {s s' : Env S} {e : Fault}
    (h : Engine.runSystems F systems s = (.error e, s')) :
    ∃ before failing after s₁ x, outputsOf systems = before ++ failing :: after ∧
      Fallible.forEach (mutateOp F) before s = (.ok (), s₁) ∧
      mutateOp F failing s₁ = (.error x, s') := by
  obtain ⟨before, system, after, s₁, rfl, hbefore, hsys⟩ := Fallible.forEach_eq_error_iff.mp h
  obtain ⟨x, hgraph, -⟩ := Fallible.mapFault_eq_error_iff.mp hsys
  obtain ⟨os, failing, os', s₂, heq, hos, hfail⟩ := Fallible.forEach_eq_error_iff.mp hgraph
  refine ⟨outputsOf before ++ os, failing, os' ++ outputsOf after, s₂, x, ?_, ?_, hfail⟩
  · simp [outputsOf, heq]
  · exact Fallible.forEach_append_eq_ok_iff.mpr ⟨s₁, runSystems_ok F hbefore, hos⟩

end Prefix

section Stores
variable (F : FloatOps)

/-- A mutation that fails changes no reading. -/
theorem reading_of_mutateOp_error {o : Mutate} {s s' : Env Stores} {x : Fault}
    (hs : s.store.Wf) (h : mutateOp F o s = (.error x, s')) (ref : AttributeRef) :
    reading s'.store ref = reading s.store ref := by
  have href := mutateOp_refines F Stores.stores_refine_map o
  have hs' : s'.store.Wf := by have := href.keeps s hs; rwa [h] at this
  have heq := href.eq hs
  rw [h] at heq
  have hview : s'.store.view = s.store.view := AttributeMap.mutateOp_error_store F heq
  rw [reading_eq_get hs', reading_eq_get hs, hview]

/-- Outputs that are not directed at an attribute do not change its reading. -/
theorem reading_of_forEach_mutateOp {os : List Mutate} {s s' : Env Stores} (hs : s.store.Wf)
    (h : Fallible.forEach (mutateOp F) os s = (.ok (), s')) {ref : AttributeRef}
    (hos : ∀ o ∈ os, o.mutateAttr ≠ ref) : reading s'.store ref = reading s.store ref := by
  have href := Fallible.Refines.forEach (mutateOp_refines F Stores.stores_refine_map) os
  have hs' : s'.store.Wf := by have := href.keeps s hs; rwa [h] at this
  have heq := href.eq hs
  rw [h] at heq
  obtain ⟨hlayout, hvalue⟩ := AttributeMap.forEach_mutateOp_value F hos s.store.view
    (s.map Stores.view) ⟨rfl, rfl⟩
  rw [heq] at hlayout hvalue
  rw [reading_eq_get hs', reading_eq_get hs, AttributeMap.get, AttributeMap.get]
  rw [show s'.store.view.layout = s.store.view.layout from hlayout,
    show s'.store.view.value ref = s.store.view.value ref from hvalue]

end Stores

namespace Engine
variable {F : FloatOps}

/-- An error is answered after the computation threw. -/
theorem answer_eq_error {S α : Type} {onReturn : α → Response} {onCatch : Exception → Response}
    {r : Except Fault α × Engine S} (hret : ∀ a, (onReturn a).isError = false) {code : StatusCode}
    {message : String} {e' : Engine S}
    (h : answer onReturn onCatch r = some (.error code message, e')) :
    ∃ x, r = (.error (.exception x), e') := by
  obtain ⟨_ | a, e⟩ := r
  · rename_i x
    cases x with
    | exception x =>
      simp only [answer, Option.some.injEq, Prod.mk.injEq] at h
      exact ⟨x, by rw [h.2]⟩
    | undefined => cases h
  · simp only [answer, Option.some.injEq, Prod.mk.injEq] at h
    have := hret a
    rw [h.1] at this
    cases this

/-- `final` is what is left of a run of `outputs` from `start` that failed: it reads as the store
after the outputs in front of the failing one, which all succeeded. -/
def StoppedAtOutput (F : FloatOps) (outputs : List Mutate) (start : Env Stores)
    (final : Stores) : Prop :=
  ∃ before failing after s x, outputs = before ++ failing :: after ∧
    Fallible.forEach (mutateOp F) before start = (.ok (), s) ∧
    (mutateOp F failing s).1 = .error x ∧
    (∀ ref, reading final ref = reading s.store ref) ∧
    ∀ ref, (∀ o ∈ before, o.mutateAttr ≠ ref) → reading final ref = reading start.store ref

theorem stoppedAtOutput_of_error {F : FloatOps} {before after : List Mutate} {failing : Mutate}
    {start s s' : Env Stores} {x : Fault} (hwf : start.store.Wf)
    (hbefore : Fallible.forEach (mutateOp F) before start = (.ok (), s))
    (hfail : mutateOp F failing s = (.error x, s')) :
    StoppedAtOutput F (before ++ failing :: after) start s'.store := by
  have hs : s.store.Wf := by
    have := (Fallible.Refines.forEach (mutateOp_refines F Stores.stores_refine_map) before).keeps
      start hwf
    rwa [hbefore] at this
  have hread := reading_of_mutateOp_error F hs hfail
  exact ⟨before, failing, after, s, x, rfl, hbefore, by rw [hfail], hread,
    fun ref href => (hread ref).trans (reading_of_forEach_mutateOp F hwf hbefore href)⟩

/-- One entity with the integer attributes `a` and `b`, and one graph that stores `1` in `a` and
then fails to read `b`; it is the graph of the system or the initial graph. -/
def twoCells (initial : Bool) : SimulationDef :=
  let a : AttributeRef := ⟨1, "C", "a"⟩
  let b : AttributeRef := ⟨1, "C", "b"⟩
  let graph : Graph := ⟨[b], [⟨a, .const (setVal (.number (.int32 1)))⟩, ⟨b, .retrieve b⟩]⟩
  { name := "s"
    entities := [⟨1, ["C"]⟩]
    components := [⟨"C", ((∅ : OrderedDict String DataType).insert "a"
      (.primitive .int32)).insert "b" (.primitive .int32)⟩]
    systems := if initial then [] else [⟨1, graph⟩]
    initGraph := if initial then graph else ⟨[], []⟩ }

/-- A fresh engine after the definition was applied. -/
def afterApply (d : SimulationDef) : Engine Stores :=
  ((run default (new 0) [.applySimulation d]).getD ([], new 0)).2

/-- **A step that fails** has the effect of the outputs in front of the one that failed: the
failing output and the later ones change nothing, and other simulations are not touched. -/
theorem stepSimulation_error_prefix {e e' : Engine Stores} (he : e.Reachable F)
    {name message : String} {code : StatusCode} {sim : Simulation Stores}
    (hsim : e.sims.get? name = some sim)
    (h : step F e (.stepSimulation name) = some (.error code message, e')) :
    (∃ sim', e'.sims.get? name = some sim' ∧ sim'.simDef = sim.simDef ∧
      StoppedAtOutput F (outputsOf sim.simDef.systems) ⟨sim.store, e.gen⟩ sim'.store) ∧
      ∀ other, other ≠ name → e'.sims.get? other = e.sims.get? other := by
  simp only [step, stepSimulation, hsim] at h
  obtain ⟨x, hr⟩ := answer_eq_error (fun _ => rfl) h
  rcases hrun : runSystems F sim.simDef.systems ⟨sim.store, e.gen⟩ with ⟨r, s'⟩
  simp only [runOn, hrun, Prod.mk.injEq] at hr
  obtain ⟨rfl, rfl⟩ := hr
  obtain ⟨before, failing, after, s, x', heq, hbefore, hfail⟩ := runSystems_error F hrun
  refine ⟨⟨_, OrderedDict.get?_insert_self _ _ _, rfl, ?_⟩,
    fun other hne => OrderedDict.get?_insert_ne _ hne _⟩
  rw [heq]
  exact stoppedAtOutput_of_error (he.wf name sim hsim) hbefore hfail

/-- The step of `twoCells` stops at its second output. -/
theorem stepSimulation_error_prefix_twoCells : ∃ sim sim' : Simulation Stores,
    (afterApply (twoCells false)).sims.get? "s" = some sim ∧ sim.simDef = twoCells false ∧
      sim'.simDef = sim.simDef ∧
      StoppedAtOutput default (outputsOf (twoCells false).systems) ⟨sim.store, 0⟩ sim'.store := by
  have hreach : (afterApply (twoCells false)).Reachable default :=
    ⟨0, [.applySimulation (twoCells false)], _, rfl⟩
  have hsim : (afterApply (twoCells false)).sims.get? "s" =
      some ⟨twoCells false, _, false⟩ := rfl
  obtain ⟨⟨sim', -, hdef, hstop⟩, -⟩ := stepSimulation_error_prefix hreach hsim rfl
  exact ⟨_, sim', rfl, rfl, hdef, hstop⟩

/-- A failing step changes what is answered for an attribute. -/
theorem stepSimulation_not_atomic :
    ¬ ∀ (F : FloatOps) (gen : ℕ) (requests : List Request) (name : String) (ref : AttributeRef)
      (os : List Response) (before after : Response) (code : StatusCode) (message : String),
      (run F (new gen : Engine Stores) (requests ++ [.getAttribute name ref])).map Prod.fst =
        some (os ++ [before]) →
      (run F (new gen : Engine Stores)
        (requests ++ [.stepSimulation name, .getAttribute name ref])).map Prod.fst =
        some (os ++ [.error code message, after]) →
      after = before := by
  intro h
  have := h default 0 [.applySimulation (twoCells false)] "s" ⟨1, "C", "a"⟩
    [.simulation (twoCells false)] _ _ _ _ rfl rfl
  cases this

/-- **An application that fails** either meets a locked simulation and changes nothing, or
leaves the new simulation registered and unlocked with the effect of the outputs of its
initial graph in front of the one that failed. Other simulations are not touched. -/
theorem applySimulation_error_prefix {e e' : Engine Stores} {d : SimulationDef}
    {message : String} {code : StatusCode}
    (h : step F e (.applySimulation d) = some (.error code message, e')) :
    (e' = e ∧ ∃ sim, e.sims.get? d.name = some sim ∧ sim.locked = true) ∨
      ((∃ store sim', Stores.construct d = .ok (d.withIds, store) ∧
        (∀ ref v, reading store ref ≠ .ok v) ∧ e'.sims.get? d.name = some sim' ∧
        sim'.simDef = d.withIds ∧ sim'.locked = false ∧
        StoppedAtOutput F d.initGraph.outputs ⟨store, e.gen⟩ sim'.store) ∧
      ∀ other, other ≠ d.name → e'.sims.get? other = e.sims.get? other) := by
  simp only [step, applySimulation] at h
  split_ifs at h with hlock
  · cases h
    refine .inl ⟨rfl, ?_⟩
    cases hs : e.sims.get? d.name with
    | none => rw [hs] at hlock; cases hlock
    | some sim => rw [hs] at hlock; exact ⟨sim, rfl, hlock⟩
  · obtain ⟨store, hc, hwf, hnone, -⟩ := construct_spec d
    have hcon := construct_stores hc
    simp only [hcon, createSimulation] at h
    obtain ⟨x, hr⟩ := answer_eq_error (fun _ => rfl) h
    rcases hrun : runGraph F d.withIds.initGraph ⟨store, e.gen⟩ with ⟨r, s'⟩
    simp only [runOn, hrun, Prod.mk.injEq] at hr
    obtain ⟨rfl, rfl⟩ := hr
    obtain ⟨before, failing, after, s, heq, hbefore, hfail⟩ :=
      Fallible.forEach_eq_error_iff.mp hrun
    refine .inr ⟨⟨store, _, hc, fun ref v => ?_, OrderedDict.get?_insert_self _ _ _, rfl, rfl, ?_⟩,
      fun other hne => OrderedDict.get?_insert_ne _ hne _⟩
    · rw [reading_eq_get hwf, AttributeMap.get, hnone]
      cases store.view.layout ref.component ref.entityId <;> simp [orNotSet]
    · rw [show d.initGraph.outputs = before ++ failing :: after from heq]
      exact stoppedAtOutput_of_error hwf hbefore hfail

/-- The initial graph of `twoCells` stops at its second output. -/
theorem applySimulation_error_prefix_twoCells : ∃ (store : Stores) (sim' : Simulation Stores),
    Stores.construct (twoCells true) = .ok (twoCells true, store) ∧ sim'.locked = false ∧
      StoppedAtOutput default (twoCells true).initGraph.outputs ⟨store, 0⟩ sim'.store := by
  have h := applySimulation_error_prefix (e := new 0) (F := default) (d := twoCells true) rfl
  rcases h with ⟨-, sim, hsim, -⟩ | ⟨⟨store, sim', hc, -, -, -, hlock, hstop⟩, -⟩
  · cases hsim
  · exact ⟨store, sim', hc, hlock, hstop⟩

/-- A failing application changes which simulations are listed. -/
theorem applySimulation_not_atomic :
    ¬ ∀ (F : FloatOps) (gen : ℕ) (requests : List Request) (d : SimulationDef) (r : Request)
      (os : List Response) (before after : Response) (code : StatusCode) (message : String),
      (run F (new gen : Engine Stores) (requests ++ [r])).map Prod.fst = some (os ++ [before]) →
      (run F (new gen : Engine Stores) (requests ++ [.applySimulation d, r])).map Prod.fst =
        some (os ++ [.error code message, after]) →
      after = before := by
  intro h
  have := h default 0 [] (twoCells true) .listSimulation [] (.simNames []) (.simNames ["s"])
    _ _ rfl rfl
  cases this

end Engine
end Bentobox
