import Bentobox.Engine.WriteBack
import Bentobox.Sdk.Lifecycle

/-!
# Functions that are called

What a function of a simulation is for can be said without its graph: it is called, and changes the
attributes. A `Meaning` of a compiler says what calls do, and where the graphs that are compiled do
the same. With it a simulation stands for a `Script`, in which the functions are called where the
simulation runs graphs (`Sim.script_of_run`).
-/
namespace Bentobox.Sdk

open AttributeStore SimulationStore

/-! ## Calls -/

/-- What calling a function does to the attributes of the entities, and where the graph that the
function is compiled into does the same. -/
structure Meaning (F : FloatOps) {Fn E : Type}
    (compile : Fn → List EntityDef → List ComponentDef → Except E Graph) where
  call : List EntityDef → AttributeMap → Fn → Option AttributeMap
  Accurate : List EntityDef → List ComponentDef → AttributeMap → Fn → Prop
  runs : ∀ {entityDefs : List EntityDef} {componentDefs : List ComponentDef} {fn : Fn}
    {graph : Graph} {s : Env Stores} {m : AttributeMap}, s.store.Steady →
    compile fn entityDefs componentDefs = .ok graph →
    Accurate entityDefs componentDefs s.store.view fn → call entityDefs s.store.view fn = some m →
    ∃ s', runGraph F graph s = (.ok (), s') ∧ s'.store.view = m

namespace Meaning
variable {F : FloatOps} {Fn E : Type}
  {compile : Fn → List EntityDef → List ComponentDef → Except E Graph} (M : Meaning F compile)

/-- Call functions, one after another. -/
def callAll (entityDefs : List EntityDef) (m : AttributeMap) (fns : List Fn) :
    Option AttributeMap := fns.foldlM (M.call entityDefs) m

/-- Each function is compiled accurately, on the attributes that those before it leave. -/
def AllAccurate (entityDefs : List EntityDef) (componentDefs : List ComponentDef) :
    AttributeMap → List Fn → Prop
  | _, [] => True
  | m, fn :: fns => M.Accurate entityDefs componentDefs m fn ∧
      ∀ m', M.call entityDefs m fn = some m' → AllAccurate entityDefs componentDefs m' fns

variable {M}

/-- **Systems** that were compiled accurately do what calling their functions does. -/
theorem runSystems {sim : Sim Fn} {systems : List SystemDef} {fns : List (Fn × UInt32)}
    (hcompiled : List.Forall₂ (Local.Compiled compile sim) systems fns) {s : Env Stores}
    (hs : s.store.Steady)
    (h : M.AllAccurate sim.entityDefs sim.componentDefs s.store.view (fns.map Prod.fst))
    {m : AttributeMap}
    (hcalls : M.callAll sim.entityDefs s.store.view (fns.map Prod.fst) = some m) :
    ∃ s', Engine.runSystems F systems s = (.ok (), s') ∧ s'.store.view = m := by
  induction hcompiled generalizing s with
  | nil =>
    cases hcalls
    exact ⟨s, rfl, rfl⟩
  | @cons system fn systems fns hfn _ ih =>
    obtain ⟨haccurate, hrest⟩ := h
    rw [callAll, List.map_cons, List.foldlM_cons] at hcalls
    obtain ⟨m₁, hcall, hcalls⟩ := Option.bind_eq_some_iff.mp hcalls
    obtain ⟨s₁, hrun, rfl⟩ := M.runs hs hfn.2 haccurate hcall
    have hs₁ : s₁.store.Steady := by
      have hsteady := hs.runGraph (F := F) system.graph
      rwa [hrun] at hsteady
    obtain ⟨s', hrun', hview⟩ := ih hs₁ (hrest _ hcall) hcalls
    have hsystem : Engine.runSystem F system s = (.ok (), s₁) :=
      Fallible.mapFault_eq_ok_iff.mpr hrun
    exact ⟨s', (Fallible.run_bind_of_ok hsystem).trans hrun', hview⟩

/-- **The initial graph** does what calling the initial function does, if there is one. -/
theorem runInit {sim : Sim Fn} {graph : Graph} (hgraph : sim.initGraph compile = .ok graph)
    {s : Env Stores} (hs : s.store.Steady)
    (h : M.AllAccurate sim.entityDefs sim.componentDefs s.store.view sim.initFn.toList)
    {m : AttributeMap} (hcall : M.callAll sim.entityDefs s.store.view sim.initFn.toList = some m) :
    ∃ s', runGraph F graph s = (.ok (), s') ∧ s'.store.view = m := by
  rw [Sim.initGraph] at hgraph
  cases hfn : sim.initFn with
  | none =>
    rw [hfn] at hgraph hcall
    cases hgraph
    cases hcall
    exact ⟨s, rfl, rfl⟩
  | some fn =>
    rw [hfn] at hgraph hcall h
    have hcall' : M.call sim.entityDefs s.store.view fn = some m := by
      simpa [callAll] using hcall
    exact M.runs hs hgraph h.1 hcall'

end Meaning

/-! ## Scripts -/

/-- A simulation whose functions are called; those run that it had when it started. -/
structure Script (Fn : Type) where
  sim : Sim Fn
  running : List Fn
  store : Option AttributeMap

namespace Script
variable {F : FloatOps} (np : Numpy) {Fn E : Type}
  {compile : Fn → List EntityDef → List ComponentDef → Except E Graph} (M : Meaning F compile)

def toLocal (d : Script Fn) : Local Fn := ⟨d.sim, [], d.store, 0⟩

/-- A created script: no attribute has a value, and nothing runs. -/
def create (name : String) (components : List ComponentDef) (entities : List EntityDef)
    (systemFns : List Fn) (initFn : Option Fn) : Option (Script Fn) :=
  (Local.create name components entities systemFns initFn 0).map fun l => ⟨l.sim, [], l.store⟩

/-- Start from no attribute with a value, and call the initial function. -/
def start (d : Script Fn) : Option (Result E × Script Fn) :=
  if d.sim.started then some (.ok none, d)
  else match d.sim.build compile true with
    | .error x => some (.error (.compile x), d)
    | .ok simDef => match (construct simDef : Except Fault (SimulationDef × AttributeMap)) with
      | .error _ => none
      | .ok (simDef, map) =>
        (M.callAll d.sim.entityDefs map d.sim.initFn.toList).map fun m =>
          (.ok none, ⟨d.sim.committed simDef, d.sim.systemFns.map Prod.fst, some m⟩)

/-- Call the functions that run. -/
def step (d : Script Fn) : Option (Result E × Script Fn) :=
  if d.sim.started then
    match d.store with
    | none =>
      some (.error (.native (.lookupError "Could not find simulation with that name.")), d)
    | some map => (M.callAll d.sim.entityDefs map d.running).map fun m =>
        (.ok none, { d with store := some m })
  else some (.error (.native (.runtimeError
    "Cannot step a simulation that has not started or already stopped.")), d)

/-- What is done to a script; where no function is called, it is a local simulation. -/
def act (d : Script Fn) : Act Fn → Option (Result E × Script Fn)
  | .start => d.start M
  | .step => d.step M
  | a => (d.toLocal.act F np compile a).map fun r =>
      (r.1, { d with sim := r.2.sim, store := r.2.store })

/-- The functions that are called have been compiled accurately. -/
def Accurate (d : Script Fn) : Act Fn → Prop
  | .start => d.sim.started = false → ∀ simDef d' map, d.sim.build compile true = .ok simDef →
      (construct simDef : Except Fault (SimulationDef × AttributeMap)) = .ok (d', map) →
      M.AllAccurate d.sim.entityDefs d.sim.componentDefs map d.sim.initFn.toList
  | .step => ∀ map, d.store = some map →
      M.AllAccurate d.sim.entityDefs d.sim.componentDefs map d.running
  | _ => True

variable {M}

/-- A created script has the entities that the engine has numbered. -/
theorem create_eq_some {name : String} {components : List ComponentDef}
    {entities : List EntityDef} {systemFns : List Fn} {initFn : Option Fn} {d : Script Fn}
    (h : create name components entities systemFns initFn = some d) :
    d.sim = (Sim.unapplied name components entities systemFns initFn).applied
      (bareDef name components entities).withIds ∧ d.running = [] := by
  obtain ⟨stores, hc, -⟩ := construct_spec (bareDef name components entities)
  rw [create, Local.create, construct_view hc] at h
  cases h
  exact ⟨rfl, rfl⟩

/-- A start lets the functions run that the script has. -/
theorem start_keeps {d d' : Script Fn} {r : Result E} (h : d.start M = some (r, d')) :
    d'.sim.entityDefs = d.sim.entityDefs ∧ d'.sim.componentDefs = d.sim.componentDefs ∧
      (d'.running = d.running ∨ d'.running = d.sim.systemFns.map Prod.fst) := by
  rw [start] at h
  split at h
  · cases h
    exact ⟨rfl, rfl, .inl rfl⟩
  · split at h
    · cases h
      exact ⟨rfl, rfl, .inl rfl⟩
    · split at h
      · cases h
      · obtain ⟨m, -, heq⟩ := Option.map_eq_some_iff.mp h
        cases heq
        exact ⟨rfl, rfl, .inr rfl⟩

end Script

/-! ## Local simulations and scripts -/

namespace Local
variable {F : FloatOps} {np : Numpy} {Fn E β : Type}
  {compile : Fn → List EntityDef → List ComponentDef → Except E Graph} {l l' k : Local Fn}
  {r : Result E}

/-- Work on the attributes depends on these only. -/
theorem run_onStore (hsim : k.sim = l.sim) (hstore : k.store = l.store)
    {f : Fallible AttributeMap Fault β} {onReturn : β → Result E}
    {onCatch : Exception → NativeError} (h : l.run (onStore f) onReturn onCatch = some (r, l')) :
    ∃ k', k.run (onStore f) onReturn onCatch = some (r, k') ∧ k'.sim = l'.sim ∧
      k'.store = l'.store := by
  rw [run] at h ⊢
  rw [hstore]
  cases hmap : l.store with
  | none =>
    rw [hmap] at h
    cases h
    exact ⟨k, rfl, hsim, hstore⟩
  | some map =>
    simp only [hmap, onStore] at h ⊢
    rcases hf : f map with ⟨(x | _) | b, m⟩ <;> simp only [hf] at h ⊢ <;> cases h
    · exact ⟨_, rfl, hsim, rfl⟩
    · exact ⟨_, rfl, hsim, rfl⟩

/-- What runs no graph depends on the record and the attributes only. -/
theorem act_congr (hsim : k.sim = l.sim) (hstore : k.store = l.store) {a : Act Fn}
    (hstart : a ≠ .start) (hstep : a ≠ .step) (h : l.act F np compile a = some (r, l')) :
    ∃ k', k.act F np compile a = some (r, k') ∧ k'.sim = l'.sim ∧ k'.store = l'.store := by
  cases a with
  | start => exact (hstart rfl).elim
  | step => exact (hstep rfl).elim
  | stop =>
    simp only [act, stop, hsim] at h ⊢
    split_ifs at h ⊢ <;> cases h
    · exact ⟨_, rfl, rfl, rfl⟩
    · exact ⟨_, rfl, hsim, hstore⟩
  | init initFn =>
    cases h
    exact ⟨_, rfl, congrArg (Sim.init · initFn) hsim, hstore⟩
  | system systemFn =>
    cases h
    exact ⟨_, rfl, congrArg (Sim.system · systemFn) hsim, hstore⟩
  | getAttr component name => exact run_onStore hsim hstore h
  | setAttr component name value =>
    simp only [act, setAttr] at h ⊢
    cases hwrap : value.wrap np with
    | error x =>
      rw [hwrap] at h
      cases h
      exact ⟨_, rfl, hsim, hstore⟩
    | ok v =>
      rw [hwrap] at h
      exact run_onStore hsim hstore h

/-- The attributes are those of consistent stores. -/
def Stored (l : Local Fn) : Prop :=
  ∀ map, l.store = some map → ∃ stores : Stores, stores.Steady ∧ stores.view = map

variable {M : Meaning F compile} {d d' : Script Fn} {r' : Result E}

/-- **The start** of a local simulation calls the initial function. -/
theorem start_script (hsim : d.sim = l.sim) (hrunning : l.Running compile d.running)
    (hstore : d.store = l.store) (h : l.start F compile = some (r, l'))
    (hkept : l'.Running compile (runningAfter l.sim d.running .start))
    (hd : d.start M = some (r', d')) (haccurate : d.Accurate M .start) :
    r = r' ∧ d'.sim = l'.sim ∧ d'.store = l'.store ∧ l'.Running compile d'.running := by
  simp only [start, Script.start, hsim, runningAfter] at h hd hkept
  split_ifs at h hd hkept with hstarted
  · cases h
    cases hd
    exact ⟨rfl, hsim, hstore, hrunning⟩
  · cases hbuild : l.sim.build compile true with
    | error x =>
      simp only [hbuild] at h hd
      cases h
      cases hd
      exact ⟨rfl, hsim, hstore, hrunning⟩
    | ok simDef =>
      obtain ⟨stores, hc, hwf, hnone, -⟩ := construct_spec simDef
      have hcon := construct_view hc
      simp only [hbuild, hcon] at h hd
      obtain ⟨m, hcalls, heq⟩ := Option.map_eq_some_iff.mp hd
      cases heq
      have hsteady : (⟨stores, l.gen⟩ : Env Stores).store.Steady :=
        ⟨hwf, AttributeMap.stable_of_unset hnone⟩
      have hall := haccurate (by rw [hsim]; exact Bool.eq_false_iff.mpr hstarted) _ _ _
        (by rw [hsim]; exact hbuild) hcon
      rw [hsim] at hall
      obtain ⟨s', hrun, rfl⟩ := M.runInit (Sim.build_eq_ok hbuild).2.2.2.2 hsteady hall hcalls
      have hview : runGraph F simDef.withIds.initGraph (⟨stores.view, l.gen⟩ : Env AttributeMap) =
          (.ok (), ⟨s'.store.view, s'.gen⟩) := by
        have heq := (runGraph_refines F Stores.stores_refine_map simDef.initGraph).eq
          (s := ⟨stores, l.gen⟩) hwf
        rw [hrun] at heq
        exact heq
      simp only [run, hview] at h
      cases h
      exact ⟨rfl, rfl, rfl, hkept⟩

/-- **A step** of a local simulation calls the functions that run. -/
theorem step_script (hsim : d.sim = l.sim) (hrunning : l.Running compile d.running)
    (hstore : d.store = l.store) (hstored : l.Stored) (h : l.step F = some (r, l'))
    (hd : d.step M = some (r', d')) (haccurate : d.Accurate M .step) :
    r = r' ∧ d'.sim = l'.sim ∧ d'.store = l'.store ∧ l'.Running compile d'.running := by
  simp only [step, Script.step, hsim, hstore] at h hd
  split_ifs at h hd with hstarted
  · cases hmap : l.store with
    | none =>
      simp only [run, hmap] at h hd
      cases h
      cases hd
      exact ⟨rfl, hsim, hstore, hrunning⟩
    | some map =>
      obtain ⟨stores, hsteady, rfl⟩ := hstored map hmap
      obtain ⟨running, added, heq, hfns, hcompiled⟩ := hrunning hstarted
      simp only [hmap] at hd
      obtain ⟨m, hcalls, heq'⟩ := Option.map_eq_some_iff.mp hd
      cases heq'
      have hall := haccurate _ (hstore.trans hmap)
      rw [hsim] at hall
      rw [← hfns] at hall hcalls
      obtain ⟨s', hrun, rfl⟩ := M.runSystems hcompiled (s := ⟨stores, l.gen⟩) hsteady hall hcalls
      have hview : Engine.runSystems F l.systems (⟨stores.view, l.gen⟩ : Env AttributeMap) =
          (.ok (), ⟨s'.store.view, s'.gen⟩) := by
        have heq := (Engine.runSystems_refines F Stores.stores_refine_map l.systems).eq
          (s := ⟨stores, l.gen⟩) hsteady.wf
        rw [hrun] at heq
        exact heq
      simp only [run, hmap, hview] at h
      cases h
      exact ⟨rfl, rfl, rfl, hrunning⟩
  · cases h
    cases hd
    exact ⟨rfl, hsim, hstore, hrunning⟩

/-- **What is done** to a local simulation is done to its script. -/
theorem act_script (hsim : d.sim = l.sim) (hrunning : l.Running compile d.running)
    (hstore : d.store = l.store) (hstored : l.Stored) {a : Act Fn}
    (h : l.act F np compile a = some (r, l')) (hd : d.act np M a = some (r', d'))
    (haccurate : d.Accurate M a) :
    r = r' ∧ d'.sim = l'.sim ∧ d'.store = l'.store ∧ l'.Running compile d'.running := by
  have hother : a ≠ .start → a ≠ .step → (d.toLocal.act F np compile a).map (fun r =>
      (r.1, { d with sim := r.2.sim, store := r.2.store })) = some (r', d') →
      l'.Running compile d.running →
      r = r' ∧ d'.sim = l'.sim ∧ d'.store = l'.store ∧ l'.Running compile d'.running := by
    intro hstart hstep hd hkept
    obtain ⟨k, hk, hksim, hkstore⟩ := act_congr (k := d.toLocal) hsim hstore hstart hstep h
    rw [hk] at hd
    cases hd
    exact ⟨rfl, hksim, hkstore, hkept⟩
  have hkept := hrunning.act h
  cases a with
  | start => exact start_script hsim hrunning hstore h hkept hd haccurate
  | step => exact step_script hsim hrunning hstore hstored h hd haccurate
  | stop | init _ | system _ | getAttr _ _ | setAttr _ _ _ =>
    exact hother (by rintro ⟨⟩) (by rintro ⟨⟩) hd hkept

end Local

/-! ## Simulations on the engine -/

/-- What is done to the simulation, if no other client is served. -/
def Turn.toAct {Fn : Type} : Turn Fn → Option (Act Fn)
  | act a => some a
  | other _ => none

def Answered.toResult {E : Type} : Answered E → Option (Result E)
  | result r => some r
  | response _ => none

namespace Sim
variable {F : FloatOps} {np : Numpy} {Fn E : Type}
  {compile : Fn → List EntityDef → List ComponentDef → Except E Graph} {M : Meaning F compile}
  {name : String} {components : List ComponentDef} {entities : List EntityDef}
  {systemFns : List Fn} {initFn : Option Fn} {sim : Sim Fn} {e e₁ : Engine Stores}
  {s s' : Sim Fn × Engine Stores} {d d' : Script Fn}

theorem turn_reachable (hs : s.2.Reachable F) {t : Turn Fn} (ht : t.Fits s.1.name) {o : Answered E}
    (h : turn F np compile s t = some (o, s')) : s'.2.Reachable F := by
  cases t with
  | act a =>
    obtain ⟨⟨r, sim', e'⟩, hact, heq⟩ := Option.map_eq_some_iff.mp h
    cases heq
    rcases act_step ht hact with rfl | ⟨request, o, -, hstep⟩
    · exact hs
    · exact hs.step F hstep
  | other r =>
    obtain ⟨p, hstep, heq⟩ := Option.map_eq_some_iff.mp h
    cases heq
    exact hs.step F hstep

/-- The attributes of a simulation on a reachable engine are those of consistent stores. -/
theorem Agrees.stored (hs : s.2.Reachable F) {l : Local Fn} (h : Agrees name s l) : l.Stored := by
  intro map hmap
  obtain ⟨reg', hget', rfl, -⟩ := h.shown.get? hmap
  rw [Engine.view, Engine.get?_map] at hget'
  obtain ⟨reg, hget, rfl⟩ := Option.map_eq_some_iff.mp hget'
  exact ⟨reg.store, hs.steady hget, rfl⟩

/-- The simulation of the given name on a reachable engine stands for the script. -/
structure Scripted (F : FloatOps)
    (compile : Fn → List EntityDef → List ComponentDef → Except E Graph) (name : String)
    (s : Sim Fn × Engine Stores) (d : Script Fn) : Prop where
  reachable : s.2.Reachable F
  agrees : ∃ l, Agrees name s l ∧ d.sim = l.sim ∧ l.Running compile d.running ∧ d.store = l.store

/-- **What is done** to a simulation is done to its script, with the same result. -/
theorem Scripted.act (h : Scripted F compile name s d) {a : Act Fn} (ha : (Turn.act a).Fits name)
    {o : Answered E} {r : Result E} (hr : turn F np compile s (.act a) = some (o, s'))
    (hd : d.act np M a = some (r, d')) (haccurate : d.Accurate M a) :
    o = .result r ∧ Scripted F compile name s' d' := by
  obtain ⟨hreachable, l, hagrees, hsim, hrunning, hstore⟩ := h
  obtain ⟨l', hstep, hagrees'⟩ := hagrees.turn ha hr
  cases hstep with
  | act hact =>
    obtain ⟨rfl, hsim', hstore', hrunning'⟩ := l.act_script hsim hrunning hstore
      (hagrees.stored hreachable) hact hd haccurate
    rw [← hagrees.named] at ha
    exact ⟨rfl, turn_reachable hreachable ha hr, l', hagrees', hsim', hrunning', hstore'⟩

/-- Other clients do nothing to the script. -/
theorem Scripted.other (h : Scripted F compile name s d) {request : Request}
    (ha : (Turn.other request : Turn Fn).Fits name) {o : Answered E}
    (hr : turn F np compile s (.other request) = some (o, s')) :
    o.toResult = none ∧ Scripted F compile name s' d := by
  obtain ⟨hreachable, l, hagrees, hsim, hrunning, hstore⟩ := h
  obtain ⟨l', hstep, hagrees'⟩ := hagrees.turn ha hr
  cases hstep with
  | other =>
    rw [← hagrees.named] at ha
    exact ⟨rfl, turn_reachable hreachable ha hr, _, hagrees', hsim, hrunning, hstore⟩

theorem create_reachable (he : e.Reachable F)
    (h : create F compile name components entities systemFns initFn e = some (.ok sim, e₁)) :
    e₁.Reachable F := by
  have hbuild : (unapplied name components entities systemFns initFn).build compile false =
      .ok (bareDef name components entities) := rfl
  simp only [create, hbuild] at h
  obtain ⟨⟨r, e'⟩, hcall, heq⟩ := Option.map_eq_some_iff.mp h
  obtain ⟨o, hstep⟩ := Client.step_of_call hcall
  obtain ⟨-, rfl⟩ := Prod.ext_iff.mp heq
  exact he.step F hstep

/-- A created simulation stands for a created script. -/
theorem create_scripted (he : e.Reachable F)
    (h : create F compile name components entities systemFns initFn e = some (.ok sim, e₁)) :
    ∃ d, Script.create name components entities systemFns initFn = some d ∧
      Scripted F compile name (sim, e₁) d := by
  obtain ⟨l, hl, hagrees⟩ := create_agrees he.wf h
  have hgen : ∃ l₀, Local.create name components entities systemFns initFn 0 = some l₀ ∧
      l₀.sim = l.sim ∧ l₀.store = l.store := by
    rw [Local.create] at hl ⊢
    split at hl <;> cases hl
    exact ⟨_, rfl, rfl, rfl⟩
  obtain ⟨l₀, hl₀, hsim, hstore⟩ := hgen
  exact ⟨⟨l₀.sim, [], l₀.store⟩, by rw [Script.create, hl₀]; rfl, create_reachable he h, l, hagrees,
    hsim, created_running hl [], hstore⟩

/-- **A run of a simulation** is a run of its script: where the functions are compiled accurately,
everything that is done to the simulation returns or raises what it does when they are called, and
in the end the attributes on the engine are those of the script. -/
theorem script_of_run (he : e.Reachable F)
    (hcreate : create F compile name components entities systemFns initFn e = some (.ok sim, e₁))
    {turns : List (Turn Fn)} (hfits : ∀ t ∈ turns, t.Fits name) {answers : List (Answered E)}
    (hrun : Machine.run (turn F np compile) (sim, e₁) turns = some (answers, s)) :
    ∃ d, Script.create name components entities systemFns initFn = some d ∧
      ∀ results d', Machine.run (Script.act np M) d (turns.filterMap Turn.toAct) =
          some (results, d') →
        Machine.Along (Script.act np M) (Script.Accurate M) d (turns.filterMap Turn.toAct) →
        answers.filterMap Answered.toResult = results ∧ s.1 = d'.sim ∧
          (s.2.sims.get? name).map (fun reg => reg.store.view) = d'.store := by
  obtain ⟨d, hd, hscripted⟩ := create_scripted he hcreate
  refine ⟨d, hd, fun results d' hrun' haccurate => ?_⟩
  obtain ⟨hresults, -, l, hagrees, hsim, -, hstore⟩ :=
    Machine.run_project (R := Scripted F compile name) (f := Turn.toAct) (g := Answered.toResult)
      (Q := fun t => t.Fits name)
      (fun s d t a o s' r d' hs ht hta hC hr hd => by
        cases t with
        | act b =>
          cases hta
          obtain ⟨rfl, hs'⟩ := hs.act ht hr hd hC
          exact ⟨rfl, hs'⟩
        | other request => cases hta)
      (fun s d t o s' hs ht hta hr => by
        cases t with
        | act b => cases hta
        | other request => exact hs.other ht hr)
      hscripted hfits hrun hrun' haccurate
  refine ⟨hresults, by rw [hsim, hagrees.sim], ?_⟩
  rw [hstore, ← hagrees.shown.store, hagrees.sim, hagrees.named, Engine.view, Engine.get?_map,
    Option.map_map]
  rfl

/-- Where a run has led, the systems on the engine are those of the functions that the simulation
started with. -/
theorem registered_of_run (he : e.Reachable F)
    (hcreate : create F compile name components entities systemFns initFn e = some (.ok sim, e₁))
    {turns : List (Turn Fn)} (hfits : ∀ t ∈ turns, t.Fits name) {answers : List (Answered E)}
    (hrun : Machine.run (turn F np compile) (sim, e₁) turns = some (answers, s))
    (hstarted : s.1.started = true) :
    ∃ reg running, s.2.sims.get? name = some reg ∧ reg.store.Steady ∧ s.1.name = name ∧
      StartedWith F np compile (sim, e₁) turns (running.map Prod.fst) ∧
      List.Forall₂ (Local.Compiled compile s.1) reg.simDef.systems running := by
  obtain ⟨l, fns, hagrees, hrunning, hwith⟩ := running_of_run he hcreate hfits hrun
  have hreachable : s.2.Reachable F := by
    refine (Machine.invariant_of_along (C := fun _ t => t.Fits name)
      (P := fun s : Sim Fn × Engine Stores => s.1.name = name ∧ s.2.Reachable F)
      (fun s t o s' hs ht hr => ?_) ⟨(create_agrees he.wf hcreate).choose_spec.2.named,
        create_reachable he hcreate⟩ (Machine.along_of_mem (fun _ t ht => hfits t ht) _) hrun).2
    rw [← hs.1] at ht ⊢
    exact ⟨(turn_keeps hr).1, turn_reachable hs.2 ht hr⟩
  obtain ⟨reg, hget, -, hreg⟩ := hagrees.registered hstarted
  have hstarted' : l.sim.started = true := by rw [hagrees.sim, hstarted]
  obtain ⟨running, added, -, rfl, hcompiled⟩ := hrunning hstarted'
  have hsystems : reg.simDef.systems = l.systems := hreg.systems hstarted'
  rw [← hsystems, hagrees.sim] at hcompiled
  exact ⟨reg, running, hget, hreachable.steady hget, hagrees.named, hwith hstarted, hcompiled⟩

end Sim
end Bentobox.Sdk
