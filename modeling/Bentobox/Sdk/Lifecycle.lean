import Bentobox.Sdk.Sim

/-!
# The life of a simulation

From its creation on, a simulation of the SDK behaves as a local one, whatever other clients the
engine serves (`Sim.run_simulated`). So a script can catch few of the errors that the engine has
(`Sim.run_errors`), the engine has registered what the simulation has recorded
(`Sim.run_recorded`), and a `with` block removes what it has started (`Sim.run_withBlock`).
-/
namespace Bentobox.Sdk

open AttributeStore SimulationStore

/-- A simulation of the given name on the engine, and the local simulation that it stands for. -/
structure Sim.Agrees {Fn : Type} (name : String) (s : Sim Fn × Engine Stores) (l : Local Fn) :
    Prop where
  named : s.1.name = name
  sim : l.sim = s.1
  wf : s.2.All Stores.Wf
  shown : l.Shown s.2.view

namespace Sim
variable {F : FloatOps} {np : Numpy} {Fn E : Type}
  {compile : Fn → List EntityDef → List ComponentDef → Except E Graph}

/-- Nothing that is done to a simulation changes its name, its entities or its components. -/
theorem act_keeps {S : Type} [SimulationStore S] {sim sim' : Sim Fn} {e e' : Engine S} {a : Act Fn}
    {r : Result E} (h : sim.act F np compile e a = some (r, sim', e')) :
    sim'.name = sim.name ∧ sim'.entityDefs = sim.entityDefs ∧
      sim'.componentDefs = sim.componentDefs ∧ sim'.entityMap = sim.entityMap := by
  cases a with
  | start =>
    simp only [act, start] at h
    split_ifs at h
    · cases h
      exact ⟨rfl, rfl, rfl, rfl⟩
    · split at h
      · cases h
        exact ⟨rfl, rfl, rfl, rfl⟩
      · obtain ⟨⟨x | d, e₁⟩, -, heq⟩ := Option.map_eq_some_iff.mp h <;> cases heq <;>
          exact ⟨rfl, rfl, rfl, rfl⟩
  | stop =>
    simp only [act, stop] at h
    split_ifs at h
    · obtain ⟨⟨x | d, e₁⟩, -, heq⟩ := Option.map_eq_some_iff.mp h <;> cases heq <;>
        exact ⟨rfl, rfl, rfl, rfl⟩
    · cases h
      exact ⟨rfl, rfl, rfl, rfl⟩
  | step =>
    simp only [act, step] at h
    split_ifs at h
    · obtain ⟨p, -, heq⟩ := Option.map_eq_some_iff.mp h
      cases heq
      exact ⟨rfl, rfl, rfl, rfl⟩
    · cases h
      exact ⟨rfl, rfl, rfl, rfl⟩
  | init initFn | system systemFn =>
    cases h
    exact ⟨rfl, rfl, rfl, rfl⟩
  | getAttr component name | setAttr component name value =>
    obtain ⟨p, -, heq⟩ := Option.map_eq_some_iff.mp h
    cases heq
    exact ⟨rfl, rfl, rfl, rfl⟩

/-- What is done to a simulation leaves the engine, or makes of it what a request that names the
simulation makes. -/
theorem act_step {S : Type} [SimulationStore S] {sim sim' : Sim Fn} {e e' : Engine S} {a : Act Fn}
    (ha : (Turn.act a).Fits sim.name) {r : Result E}
    (h : sim.act F np compile e a = some (r, sim', e')) :
    e' = e ∨ ∃ request o, request.names sim.name = true ∧
      Engine.step F e request = some (o, e') := by
  have hcall : ∀ {α : Type} {unpack : Response → Option α} {request : Request}
      {p : Except NativeError α × Engine S}, Client.call F unpack request e = some p →
      request.names sim.name = true → p.2 = e' →
      e' = e ∨ ∃ request o, request.names sim.name = true ∧
        Engine.step F e request = some (o, e') := by
    rintro α unpack request p hp hnames rfl
    obtain ⟨o, hstep⟩ := Client.step_of_call hp
    exact .inr ⟨request, o, hnames, hstep⟩
  cases a with
  | start =>
    simp only [act, start] at h
    split_ifs at h
    · cases h
      exact .inl rfl
    · cases hbuild : sim.build compile true with
      | error x =>
        rw [hbuild] at h
        cases h
        exact .inl rfl
      | ok d =>
        simp only [hbuild] at h
        obtain ⟨⟨x | d', e₁⟩, hp, heq⟩ := Option.map_eq_some_iff.mp h <;> cases heq <;>
          exact hcall hp (decide_eq_true (build_eq_ok hbuild).1) rfl
  | stop =>
    simp only [act, stop] at h
    split_ifs at h
    · obtain ⟨⟨x | d, e₁⟩, hp, heq⟩ := Option.map_eq_some_iff.mp h <;> cases heq <;>
        exact hcall hp (decide_eq_true rfl) rfl
    · cases h
      exact .inl rfl
  | step =>
    simp only [act, step] at h
    split_ifs at h
    · obtain ⟨p, hp, heq⟩ := Option.map_eq_some_iff.mp h
      cases heq
      exact hcall hp (decide_eq_true rfl) rfl
    · cases h
      exact .inl rfl
  | init initFn | system systemFn =>
    cases h
    exact .inl rfl
  | getAttr component name =>
    obtain ⟨p, hp, heq⟩ := Option.map_eq_some_iff.mp h
    obtain ⟨q, hq, heq'⟩ := Option.map_eq_some_iff.mp hp
    cases heq'
    cases heq
    exact hcall hq (decide_eq_true (show component.simName = sim.name from ha)) rfl
  | setAttr component name value =>
    obtain ⟨p, hp, heq⟩ := Option.map_eq_some_iff.mp h
    cases heq
    simp only [Grpc.Component.setAttr] at hp
    split at hp
    · cases hp
      exact .inl rfl
    · obtain ⟨q, hq, heq'⟩ := Option.map_eq_some_iff.mp hp
      cases heq'
      exact hcall hq (decide_eq_true (show component.simName = sim.name from ha)) rfl

/-- The stores stay consistent. -/
theorem act_wf {sim sim' : Sim Fn} {e e' : Engine Stores} (he : e.All Stores.Wf) {a : Act Fn}
    (ha : (Turn.act a).Fits sim.name) {r : Result E}
    (h : sim.act F np compile e a = some (r, sim', e')) : e'.All Stores.Wf := by
  rcases act_step ha h with rfl | ⟨request, o, -, hstep⟩
  · exact he
  · exact Engine.step_all F stores_refine_simulation he hstep

/-- **One turn** of a simulation on the engine is one of the local simulation. -/
theorem Agrees.turn {name : String} {s s' : Sim Fn × Engine Stores} {l : Local Fn}
    (h : Agrees name s l) {t : Turn Fn} (ht : t.Fits name) {o : Answered E}
    (hr : Sim.turn F np compile s t = some (o, s')) :
    ∃ l', Local.Step F np compile l t o l' ∧ Agrees name s' l' := by
  obtain ⟨sim, e⟩ := s
  obtain ⟨rfl, rfl, hwf, hshown⟩ := h
  cases t with
  | act a =>
    obtain ⟨⟨r, sim', e'⟩, hact, heq⟩ := Option.map_eq_some_iff.mp hr
    cases heq
    have hview := @act_view F np _ _ compile _ hwf l.sim a
    rw [hact, Option.map_some] at hview
    obtain ⟨l', hlocal, hshown', hsim'⟩ := hshown.act ht hview
    exact ⟨l', .act hlocal, (act_keeps hact).1, hsim', act_wf hwf ht hact, hshown'⟩
  | other r =>
    obtain ⟨⟨o, e'⟩, hstep, heq⟩ := Option.map_eq_some_iff.mp hr
    cases heq
    have hget : e'.view.sims.get? l.sim.name = e.view.sims.get? l.sim.name := by
      rw [Engine.view, Engine.view, Engine.get?_map, Engine.get?_map, Engine.get?_step ht hstep]
    refine ⟨_, .other l r o e'.gen, rfl, rfl,
      Engine.step_all F stores_refine_simulation hwf hstep, rfl, ?_, hshown.present,
      hshown.numbered, fun reg hreg => ?_⟩
    · exact (congrArg _ hget).trans hshown.store
    · have hreg' := hshown.registered reg (hget.symm.trans hreg)
      exact ⟨hreg'.entities, hreg'.components, hreg'.systems, hreg'.unlocked⟩

/-- **A run** of a simulation on the engine is one of the local simulation. -/
theorem Agrees.run {name : String} {s s' : Sim Fn × Engine Stores} {l : Local Fn}
    (h : Agrees name s l) {turns : List (Turn Fn)} (hfits : ∀ t ∈ turns, t.Fits name)
    {answers : List (Answered E)}
    (hrun : Machine.run (Sim.turn F np compile) s turns = some (answers, s')) :
    ∃ l', Machine.Runs (Local.Step F np compile) l turns answers l' ∧ Agrees name s' l' := by
  have hstep : ∀ (s : Sim Fn × Engine Stores) (l : Local Fn) (t : Turn Fn) (o : Answered E) s',
      Agrees name s l → t.Fits name → Sim.turn F np compile s t = some (o, s') →
      ∃ l', Local.Step F np compile l t o l' ∧ Agrees name s' l' :=
    fun _ _ _ _ _ hs ht hr => hs.turn ht hr
  exact Machine.simulated_of_mem hstep h hfits hrun

end Sim

/-! ## Creation -/

/-- The definition that is applied when a simulation is created. -/
def bareDef (name : String) (components : List ComponentDef) (entities : List EntityDef) :
    SimulationDef :=
  ⟨name, entities, components, [], ⟨[], []⟩⟩

/-- A created simulation: its entities are numbered, and no attribute has a value. -/
def Local.create {Fn : Type} (name : String) (components : List ComponentDef)
    (entities : List EntityDef) (systemFns : List Fn) (initFn : Option Fn) (gen : ℕ) :
    Option (Local Fn) :=
  match (construct (bareDef name components entities) :
      Except Fault (SimulationDef × AttributeMap)) with
  | .ok (simDef, map) => some
    ⟨(Sim.unapplied name components entities systemFns initFn).applied simDef, [], some map, gen⟩
  | .error _ => none

/-- Entities that the engine has numbered are kept. -/
theorem numbered_withIds (d : SimulationDef) : Numbered d.withIds.entities := by
  obtain ⟨stores, hc, -⟩ := construct_spec d
  obtain ⟨-, -, hkept, -⟩ := Stores.construct_numbered hc (r := d.withIds) rfl rfl
  exact hkept

namespace Sim
variable {F : FloatOps} {np : Numpy} {Fn E : Type}
  {compile : Fn → List EntityDef → List ComponentDef → Except E Graph} {name : String}
  {components : List ComponentDef} {entities : List EntityDef} {systemFns : List Fn}
  {initFn : Option Fn} {sim : Sim Fn} {e e₁ : Engine Stores}

/-- A locked simulation is not applied. -/
theorem applySim_of_locked {S : Type} [SimulationStore S] {e : Engine S} {d : SimulationDef}
    (hlock : ((e.sims.get? d.name).map Bentobox.Simulation.locked).getD false = true) :
    Client.applySim F d e = some (.error (.fileExistsError
      "The simulation has been created and stepped at least once."), e) := by
  simp only [Client.applySim, Client.call, Engine.step, Engine.applySimulation, hlock, if_true]
  rfl

/-- **A simulation that is created** is a created local one. -/
theorem create_agrees (he : e.All Stores.Wf)
    (h : create F compile name components entities systemFns initFn e = some (.ok sim, e₁)) :
    ∃ l, Local.create name components entities systemFns initFn e.gen = some l ∧
      Agrees name (sim, e₁) l := by
  have hbuild : (unapplied name components entities systemFns initFn).build compile false =
      .ok (bareDef name components entities) := rfl
  simp only [create, hbuild] at h
  obtain ⟨⟨r, e'⟩, hcall, heq⟩ := Option.map_eq_some_iff.mp h
  set d := bareDef name components entities with hd
  obtain ⟨stores, hc, hwf, -⟩ := construct_spec d
  cases hlock : ((e.sims.get? d.name).map Bentobox.Simulation.locked).getD false with
  | true =>
    rw [applySim_of_locked hlock] at hcall
    cases hcall
    cases heq
  | false =>
    rw [Client.applySim_eq hlock (construct_stores hc)] at hcall
    cases hcall
    cases heq
    refine ⟨⟨(unapplied name components entities systemFns initFn).applied d.withIds, [],
      some stores.view, e.gen⟩, ?_, rfl, rfl, he.insert hwf _ _, rfl, ?_, fun hs => (by cases hs),
      numbered_withIds d, fun reg hreg => ?_⟩
    · rw [Local.create, ← hd, construct_view hc]
    · rw [Engine.get?_view (OrderedDict.get?_insert_self _ _ _)]
      rfl
    · rw [Engine.get?_view (OrderedDict.get?_insert_self _ _ _)] at hreg
      cases hreg
      exact ⟨rfl, rfl, fun hs => (by cases hs), fun _ => rfl⟩

/-- **A run of a simulation** on an engine that other clients use too is a run of the local
simulation, with the same results. -/
theorem run_simulated (he : e.Reachable F)
    (hcreate : create F compile name components entities systemFns initFn e = some (.ok sim, e₁))
    {turns : List (Turn Fn)} (hfits : ∀ t ∈ turns, t.Fits name) {answers : List (Answered E)}
    {s : Sim Fn × Engine Stores}
    (hrun : Machine.run (Sim.turn F np compile) (sim, e₁) turns = some (answers, s)) :
    ∃ l l', Local.create name components entities systemFns initFn e.gen = some l ∧
      Machine.Runs (Local.Step F np compile) l turns answers l' ∧ l'.sim = s.1 := by
  obtain ⟨l, hl, hagrees⟩ := create_agrees he.wf hcreate
  obtain ⟨l', hruns, hagrees'⟩ := hagrees.run hfits hrun
  exact ⟨l, l', hl, hruns, hagrees'.sim⟩

/-- A compiler of functions that are graphs already. -/
def precompiled : Graph → List EntityDef → List ComponentDef → Except PythonError Graph :=
  fun graph _ _ => .ok graph

/-- A simulation of one entity. -/
def createCounter : Option (Except (SimError PythonError) (Sim Graph) × Engine Stores) :=
  create default precompiled "sim"
    [⟨"C", (∅ : OrderedDict String DataType).insert "a" (.primitive .int32)⟩] [⟨0, ["C"]⟩] [] none
    (Engine.new 0)

/-- An attribute is set to zero at the start, and every step adds one to it. -/
def prepareCounter : List (Turn Graph) :=
  [.act (.init ⟨[], [⟨⟨1, "C", "a"⟩, .const (setVal (.number (.int32 0)))⟩]⟩),
    .act (.system ⟨[], [⟨⟨1, "C", "a"⟩, .binary .add (.retrieve ⟨1, "C", "a"⟩)
      (.const (setVal (.number (.int32 1))))⟩]⟩)]

/-- The counter steps and is read, and another simulation is stepped between. -/
def useCounter : List (Turn Graph) :=
  [.act .step, .other (.stepSimulation "t"), .act (.getAttr ⟨"sim", 1, "C"⟩ "a"),
    .act (.setAttr ⟨"sim", 1, "C"⟩ "b" (.scalar (.native (.int 1)))), .act .step]

theorem useCounter_fits : ∀ t ∈ useCounter, t.Fits "sim" := by
  simp [useCounter, Turn.Fits, Request.names]

theorem countingTurns_fits : ∀ t ∈ prepareCounter ++ .act .start :: useCounter, t.Fits "sim" := by
  simp [prepareCounter, useCounter, Turn.Fits, Request.names]

/-- The counter runs with its system, and does not stop. -/
theorem counting : ∃ sim e₁ answers s reg, createCounter = some (.ok sim, e₁) ∧
    Machine.run (turn default elementwise precompiled) (sim, e₁)
      (prepareCounter ++ .act .start :: useCounter) = some (answers, s) ∧ s.1.started = true ∧
    s.2.sims.get? "sim" = some reg ∧ reg.simDef.systems.length = 1 := by
  have hrun : (createCounter.bind fun p => p.1.toOption.bind fun sim =>
      (Machine.run (turn default elementwise precompiled) (sim, p.2)
        (prepareCounter ++ .act .start :: useCounter)).bind fun r =>
          (r.2.2.sims.get? "sim").map fun reg =>
            (r.2.1.started, reg.simDef.systems.length)) = some (true, 1) := by
    decide +kernel
  obtain ⟨⟨r, e₁⟩, hcreate, hrun⟩ := Option.bind_eq_some_iff.mp hrun
  obtain ⟨sim, hsim, hrun⟩ := Option.bind_eq_some_iff.mp hrun
  obtain ⟨⟨answers, s⟩, hrun, hcheck⟩ := Option.bind_eq_some_iff.mp hrun
  obtain ⟨reg, hget, hcheck⟩ := Option.map_eq_some_iff.mp hcheck
  obtain ⟨hstarted, hlength⟩ := Prod.mk.inj hcheck
  cases Fallible.toOption_eq_some_iff.mp hsim
  exact ⟨sim, e₁, answers, s, reg, hcreate, hrun, hstarted, hget, hlength⟩

/-- The counter runs as the local one. -/
theorem run_simulated_counter : ∃ sim e₁ answers s, createCounter = some (.ok sim, e₁) ∧
    Machine.run (turn default elementwise precompiled) (sim, e₁)
      (prepareCounter ++ .act .start :: useCounter) = some (answers, s) ∧
    ∃ l l', Local.create "sim"
        [⟨"C", (∅ : OrderedDict String DataType).insert "a" (.primitive .int32)⟩] [⟨0, ["C"]⟩] []
        none 0 = some l ∧
      Machine.Runs (Local.Step default elementwise precompiled) l
        (prepareCounter ++ .act .start :: useCounter) answers l' ∧ l'.sim = s.1 := by
  obtain ⟨sim, e₁, answers, s, -, hcreate, hrun, -⟩ := counting
  have hreach : (Engine.new 0 : Engine Stores).Reachable default := ⟨0, [], [], rfl⟩
  exact ⟨sim, e₁, answers, s, hcreate, hrun,
    run_simulated hreach hcreate countingTurns_fits hrun⟩

end Sim

/-! ## The errors of a script -/

/-- What doing something to a simulation may raise. -/
def Act.Raises {Fn E : Type} : Act Fn → SimError E → Prop
  | start, .compile _ | start, .native (.runtimeError _) => True
  | stop, x => x = .native (.runtimeError "Cannot stop a Simulation that has not started yet.")
  | step, .native (.runtimeError _) => True
  | getAttr _ _, .value _ | getAttr _ _, .native (.lookupError _) => True
  | setAttr _ _ _, .value _ | setAttr _ _ _, .native (.runtimeError _) => True
  | setAttr _ _ _, x => x = .native (.lookupError "Could not find simulation with that name.")
  | _, _ => False

namespace Local
variable {F : FloatOps} {np : Numpy} {Fn E β : Type}
  {compile : Fn → List EntityDef → List ComponentDef → Except E Graph} {l l' : Local Fn}

/-- A simulation that has started has attributes. -/
def Present (l : Local Fn) : Prop := l.sim.started = true → l.store.isSome = true

theorem run_cases {m : Eval AttributeMap β} {onReturn : β → Result E}
    {onCatch : Exception → NativeError} {r : Result E}
    (h : l.run m onReturn onCatch = some (r, l')) :
    (l.store = none ∧ r = .error (.native (.lookupError
      "Could not find simulation with that name.")) ∧ l' = l) ∨
    (∃ map, l.store = some map) ∧ ∃ s : Env AttributeMap,
      l' = { l with store := some s.store, gen := s.gen } ∧
      ((∃ b, r = onReturn b) ∨ ∃ x, r = .error (.native (onCatch x))) := by
  rw [run] at h
  cases hmap : l.store with
  | none =>
    rw [hmap] at h
    cases h
    exact .inl ⟨rfl, rfl, rfl⟩
  | some map =>
    rw [hmap] at h
    refine .inr ⟨⟨map, rfl⟩, ?_⟩
    rcases hm : m ⟨map, l.gen⟩ with ⟨(x | _) | b, s⟩ <;> simp only [hm] at h <;> cases h
    · exact ⟨s, rfl, .inr ⟨x, rfl⟩⟩
    · exact ⟨s, rfl, .inl ⟨b, rfl⟩⟩

/-- **What a local simulation raises**, and that it keeps its attributes while it has started. -/
theorem Present.act (hl : l.Present) {a : Act Fn} {r : Result E}
    (h : l.act F np compile a = some (r, l')) :
    l'.Present ∧ ∀ x, r = .error x → a.Raises x := by
  cases a with
  | start =>
    simp only [Local.act, start] at h
    split_ifs at h
    · cases h
      exact ⟨hl, fun x hx => by cases hx⟩
    · cases hbuild : l.sim.build compile true with
      | error x =>
        rw [hbuild] at h
        cases h
        refine ⟨hl, ?_⟩
        rintro _ ⟨⟩
        trivial
      | ok d =>
        obtain ⟨stores, hc, -⟩ := construct_spec d
        simp only [hbuild, construct_view hc] at h
        obtain ⟨⟨r', l₁⟩, hrun, heq⟩ := Option.map_eq_some_iff.mp h
        rcases run_cases hrun with ⟨hnone, -⟩ | ⟨-, s, rfl, ⟨-, rfl⟩ | ⟨x, rfl⟩⟩
        · cases hnone
        · cases heq
          exact ⟨fun _ => rfl, fun x hx => by cases hx⟩
        · cases heq
          refine ⟨fun _ => rfl, ?_⟩
          rintro _ ⟨⟩
          trivial
  | stop =>
    simp only [Local.act, stop] at h
    split_ifs at h <;> cases h
    · exact ⟨fun hs => (by cases hs), fun x hx => by cases hx⟩
    · refine ⟨hl, ?_⟩
      rintro _ ⟨⟩
      rfl
  | step =>
    simp only [Local.act, step] at h
    split_ifs at h with hstarted
    · rcases run_cases h with ⟨hnone, -⟩ | ⟨-, s, rfl, ⟨-, rfl⟩ | ⟨x, rfl⟩⟩
      · have hsome := hl hstarted
        rw [hnone] at hsome
        cases hsome
      · exact ⟨fun _ => rfl, fun x hx => by cases hx⟩
      · refine ⟨fun _ => rfl, ?_⟩
        rintro _ ⟨⟩
        trivial
    · cases h
      refine ⟨hl, ?_⟩
      rintro _ ⟨⟩
      trivial
  | init initFn | system systemFn =>
    cases h
    exact ⟨hl, fun x hx => by cases hx⟩
  | getAttr component name =>
    rcases run_cases h with ⟨-, rfl, rfl⟩ | ⟨-, s, rfl, ⟨v, rfl⟩ | ⟨x, rfl⟩⟩
    · refine ⟨hl, ?_⟩
      rintro _ ⟨⟩
      trivial
    · refine ⟨fun _ => rfl, fun x hx => ?_⟩
      cases hv : unwrap F np v with
      | error y =>
        rw [hv] at hx
        cases hx
        trivial
      | ok o =>
        rw [hv] at hx
        cases hx
    · refine ⟨fun _ => rfl, ?_⟩
      rintro _ ⟨⟩
      trivial
  | setAttr component name value =>
    simp only [Local.act, setAttr] at h
    split at h
    · cases h
      refine ⟨hl, ?_⟩
      rintro _ ⟨⟩
      trivial
    · rcases run_cases h with ⟨-, rfl, rfl⟩ | ⟨-, s, rfl, ⟨-, rfl⟩ | ⟨x, rfl⟩⟩
      · refine ⟨hl, ?_⟩
        rintro _ ⟨⟩
        rfl
      · exact ⟨fun _ => rfl, fun x hx => by cases hx⟩
      · refine ⟨fun _ => rfl, ?_⟩
        rintro _ ⟨⟩
        trivial

end Local

/-- The answer is one that the turn may have. -/
def Turn.Allows {Fn E : Type} : Turn Fn → Answered E → Prop
  | act a, .result (.error x) => a.Raises x
  | _, _ => True

namespace Sim
variable {F : FloatOps} {np : Numpy} {Fn E : Type}
  {compile : Fn → List EntityDef → List ComponentDef → Except E Graph} {name : String}
  {components : List ComponentDef} {entities : List EntityDef} {systemFns : List Fn}
  {initFn : Option Fn} {sim : Sim Fn} {e e₁ : Engine Stores}

theorem create_present {l : Local Fn} {gen : ℕ}
    (h : Local.create name components entities systemFns initFn gen = some l) : l.Present := by
  rw [Local.create] at h
  split at h <;> cases h
  exact fun _ => rfl

/-- **What a script can catch.** A simulation is never found to exist already, and starting,
stopping and stepping it never find it missing. -/
theorem run_errors (he : e.Reachable F)
    (hcreate : create F compile name components entities systemFns initFn e = some (.ok sim, e₁))
    {turns : List (Turn Fn)} (hfits : ∀ t ∈ turns, t.Fits name) {answers : List (Answered E)}
    {s : Sim Fn × Engine Stores}
    (hrun : Machine.run (Sim.turn F np compile) (sim, e₁) turns = some (answers, s)) :
    List.Forall₂ Turn.Allows turns answers := by
  obtain ⟨l, hl, hagrees⟩ := create_agrees he.wf hcreate
  obtain ⟨l', hruns, -⟩ := hagrees.run hfits hrun
  refine hruns.answers (P := Local.Present) (fun l t o l' hp hstep => ?_) (create_present hl)
  cases hstep with
  | act h =>
    obtain ⟨hp', hraise⟩ := hp.act h
    refine ⟨hp', ?_⟩
    rename_i r
    cases r with
    | error x => exact hraise x rfl
    | ok o => trivial
  | other => exact ⟨hp, trivial⟩

/-- What can be caught while the counter runs. -/
theorem run_errors_counter : ∃ sim e₁ answers s, createCounter = some (.ok sim, e₁) ∧
    Machine.run (turn default elementwise precompiled) (sim, e₁)
      (prepareCounter ++ .act .start :: useCounter) = some (answers, s) ∧
    List.Forall₂ Turn.Allows (prepareCounter ++ .act .start :: useCounter) answers := by
  obtain ⟨sim, e₁, answers, s, -, hcreate, hrun, -⟩ := counting
  have hreach : (Engine.new 0 : Engine Stores).Reachable default := ⟨0, [], [], rfl⟩
  exact ⟨sim, e₁, answers, s, hcreate, hrun, run_errors hreach hcreate countingTurns_fits hrun⟩

end Sim

/-! ## What the engine has registered -/

/-- Numbering systems keeps what holds of their graphs by position. -/
theorem forall₂_setSystemIds {α : Type} {P : α → Graph → Prop} {as : List α}
    {systems : List SystemDef} (h : List.Forall₂ (fun a s => P a s.graph) as systems)
    (maxId : UInt32) : List.Forall₂ (fun a s => P a s.graph) as (setSystemIds maxId systems) := by
  induction h generalizing maxId with
  | nil => exact .nil
  | cons hs _ ih =>
    rw [setSystemIds]
    split_ifs
    · exact .cons hs (ih _)
    · exact .cons hs (ih _)

namespace Local
variable {F : FloatOps} {np : Numpy} {Fn E : Type}
  {compile : Fn → List EntityDef → List ComponentDef → Except E Graph} {l l' : Local Fn}

/-- The function has been compiled into the system, whose identifier it has. -/
def Compiled (compile : Fn → List EntityDef → List ComponentDef → Except E Graph) (sim : Sim Fn)
    (system : SystemDef) (fn : Fn × UInt32) : Prop :=
  fn.2 = system.id ∧ sim.compileFn compile fn.1 = .ok system.graph

/-- The given functions run: they are the first ones of the simulation, those that were added after
it started do not run. -/
def Running (compile : Fn → List EntityDef → List ComponentDef → Except E Graph) (fns : List Fn)
    (l : Local Fn) : Prop :=
  l.sim.started = true → ∃ running added, l.sim.systemFns = running ++ added ∧
    running.map Prod.fst = fns ∧ List.Forall₂ (Compiled compile l.sim) l.systems running

/-- The functions that run when something was done. -/
def runningAfter (sim : Sim Fn) (fns : List Fn) : Act Fn → List Fn
  | .start => if sim.started then fns else sim.systemFns.map Prod.fst
  | _ => fns

/-- Functions that are compiled by position get the identifiers of their systems. -/
theorem compiled_committed {sim : Sim Fn} {fns : List (Fn × UInt32)} {systems : List SystemDef}
    (h : List.Forall₂ (fun fn s => sim.compileFn compile fn.1 = .ok s.graph) fns systems) :
    List.Forall₂ (Compiled compile sim) systems
      ((fns.map Prod.fst).zipWith (fun fn s => (fn, s.id)) systems) := by
  induction h with
  | nil => exact .nil
  | cons hs _ ih => exact .cons ⟨rfl, hs⟩ ih

/-- The systems of a simulation are what its functions are compiled into. -/
theorem compiled_systemDefs {sim : Sim Fn} {systems : List SystemDef}
    (h : sim.systemDefs compile = .ok systems) :
    List.Forall₂ (fun fn s => sim.compileFn compile fn.1 = .ok s.graph) sim.systemFns systems := by
  refine (Fallible.mapM_eq_ok h).imp fun fn s hs => ?_
  obtain ⟨graph, hgraph, rfl⟩ := Fallible.map_eq_ok_iff.mp hs
  exact hgraph

theorem map_fst_zipWith {fns : List (Fn × UInt32)} {systems : List SystemDef}
    (h : fns.length = systems.length) :
    ((fns.map Prod.fst).zipWith (fun fn s => (fn, s.id)) systems).map Prod.fst =
      fns.map Prod.fst := by
  induction fns generalizing systems with
  | nil => rfl
  | cons fn fns ih =>
    cases systems with
    | nil => cases h
    | cons s systems => simp [ih (Nat.succ.inj h)]

/-- What is done to a simulation leaves the functions that run, unless it starts. -/
theorem Running.act {fns : List Fn} (hl : l.Running compile fns) {a : Act Fn} {r : Result E}
    (h : l.act F np compile a = some (r, l')) :
    l'.Running compile (runningAfter l.sim fns a) := by
  have hrun : ∀ {β : Type} {m : Eval AttributeMap β} {onReturn : β → Result E}
      {onCatch : Exception → NativeError}, l.run m onReturn onCatch = some (r, l') →
      l'.Running compile fns := by
    intro β m onReturn onCatch hm
    rcases run_cases hm with ⟨-, -, rfl⟩ | ⟨-, s, rfl, -⟩ <;> exact hl
  cases a with
  | start =>
    simp only [Local.act, start] at h
    rw [runningAfter]
    split_ifs at h ⊢ with hstarted
    · cases h
      exact hl
    · cases hbuild : l.sim.build compile true with
      | error x =>
        rw [hbuild] at h
        cases h
        exact fun hs => absurd hs hstarted
      | ok d =>
        obtain ⟨stores, hc, -⟩ := construct_spec d
        simp only [hbuild, construct_view hc] at h
        obtain ⟨⟨r', l₁⟩, hm, heq⟩ := Option.map_eq_some_iff.mp h
        rcases run_cases hm with ⟨hnone, -⟩ | ⟨-, s, rfl, ⟨-, rfl⟩ | ⟨x, rfl⟩⟩
        · cases hnone
        · cases heq
          have hsystems := compiled_systemDefs (Sim.build_eq_ok hbuild).2.2.2.1
          have hnumbered : List.Forall₂ (fun fn s => l.sim.compileFn compile fn.1 = .ok s.graph)
              l.sim.systemFns d.withIds.systems :=
            forall₂_setSystemIds
              (P := fun (fn : Fn × UInt32) graph => l.sim.compileFn compile fn.1 = .ok graph)
              hsystems _
          exact fun _ => ⟨_, [], (List.append_nil _).symm, map_fst_zipWith hnumbered.length_eq,
            compiled_committed hnumbered⟩
        · cases heq
          exact fun hs => absurd hs hstarted
  | stop =>
    simp only [Local.act, stop] at h
    split_ifs at h <;> cases h
    · exact fun hs => by cases hs
    · exact hl
  | step =>
    simp only [Local.act, step] at h
    split_ifs at h
    · exact hrun h
    · cases h
      exact hl
  | init initFn =>
    cases h
    exact hl
  | system systemFn =>
    cases h
    intro hs
    obtain ⟨running, added, heq, hfns, hcompiled⟩ := hl hs
    refine ⟨running, added ++ [(systemFn, 0)], ?_, hfns, hcompiled⟩
    simp only [Sim.system, heq, List.append_assoc]
  | getAttr component name => exact hrun h
  | setAttr component name value =>
    simp only [Local.act, setAttr] at h
    split at h
    · cases h
      exact hl
    · exact hrun h

theorem runningAfter_of_started {sim : Sim Fn} (h : sim.started = true) (fns : List Fn)
    (a : Act Fn) : runningAfter sim fns a = fns := by
  cases a with
  | start => exact if_pos h
  | _ => rfl

/-- A simulation that has started had started before, or starts now. -/
theorem started_of_act {a : Act Fn} {r : Result E} (h : l.act F np compile a = some (r, l'))
    (hs : l'.sim.started = true) : a ≠ .stop ∧ (l.sim.started = true ∨
      l.sim.started = false ∧ a = .start ∧ r = .ok none) := by
  have hrun : ∀ {β : Type} {m : Eval AttributeMap β} {onReturn : β → Result E}
      {onCatch : Exception → NativeError}, l.run m onReturn onCatch = some (r, l') →
      l.sim.started = true := by
    intro β m onReturn onCatch hm
    rcases run_cases hm with ⟨-, -, rfl⟩ | ⟨-, s, rfl, -⟩ <;> exact hs
  cases a with
  | start =>
    refine ⟨by rintro ⟨⟩, ?_⟩
    simp only [Local.act, start] at h
    split_ifs at h with hstarted
    · exact .inl hstarted
    · have hstopped : l.sim.started = false := Bool.eq_false_iff.mpr hstarted
      cases hbuild : l.sim.build compile true with
      | error x =>
        rw [hbuild] at h
        cases h
        exact absurd hs hstarted
      | ok d =>
        obtain ⟨stores, hc, -⟩ := construct_spec d
        simp only [hbuild, construct_view hc] at h
        obtain ⟨⟨r', l₁⟩, hm, heq⟩ := Option.map_eq_some_iff.mp h
        rcases run_cases hm with ⟨hnone, -⟩ | ⟨-, s, rfl, ⟨-, rfl⟩ | ⟨x, rfl⟩⟩
        · cases hnone
        · cases heq
          exact .inr ⟨hstopped, rfl, rfl⟩
        · cases heq
          exact absurd hs hstarted
  | stop =>
    simp only [Local.act, stop] at h
    split_ifs at h with hstarted <;> cases h
    · cases hs
    · exact absurd hs hstarted
  | step =>
    simp only [Local.act, step] at h
    split_ifs at h with hstarted
    · exact ⟨by rintro ⟨⟩, .inl hstarted⟩
    · cases h
      exact absurd hs hstarted
  | init initFn | system systemFn =>
    cases h
    exact ⟨by rintro ⟨⟩, .inl hs⟩
  | getAttr component name => exact ⟨by rintro ⟨⟩, .inl (hrun h)⟩
  | setAttr component name value =>
    simp only [Local.act, setAttr] at h
    split at h
    · cases h
      exact ⟨by rintro ⟨⟩, .inl hs⟩
    · exact ⟨by rintro ⟨⟩, .inl (hrun h)⟩

end Local

namespace Sim
variable {F : FloatOps} {np : Numpy} {Fn E : Type}
  {compile : Fn → List EntityDef → List ComponentDef → Except E Graph} {name : String}
  {components : List ComponentDef} {entities : List EntityDef} {systemFns : List Fn}
  {initFn : Option Fn} {sim : Sim Fn} {e e₁ : Engine Stores}

/-- After the turns a simulation has started: one of them started it, with these functions, and none
has stopped it since. -/
def StartedWith (F : FloatOps) (np : Numpy)
    (compile : Fn → List EntityDef → List ComponentDef → Except E Graph)
    (s : Sim Fn × Engine Stores) (turns : List (Turn Fn)) (fns : List Fn) : Prop :=
  ∃ before after answers s₀ s₁, turns = before ++ .act .start :: after ∧
    Machine.run (turn F np compile) s before = some (answers, s₀) ∧ s₀.1.started = false ∧
    turn F np compile s₀ (.act .start) = some (.result (.ok none), s₁) ∧
    s₀.1.systemFns.map Prod.fst = fns ∧ .act .stop ∉ after

theorem StartedWith.append {s : Sim Fn × Engine Stores} {turns : List (Turn Fn)} {fns : List Fn}
    (h : StartedWith F np compile s turns fns) {t : Turn Fn} (ht : t ≠ .act .stop) :
    StartedWith F np compile s (turns ++ [t]) fns := by
  obtain ⟨before, after, answers, s₀, s₁, rfl, hrun, hstopped, hstart, hfns, hkept⟩ := h
  refine ⟨before, after ++ [t], answers, s₀, s₁, by simp, hrun, hstopped, hstart, hfns, ?_⟩
  simp [hkept, ht.symm]

/-- The record of a simulation is what the engine has registered: its entities and components, one
handle for every entity that is not lost, and at the places of its first functions their systems.
These functions are the given ones. -/
structure Recorded (compile : Fn → List EntityDef → List ComponentDef → Except E Graph)
    (fns : List Fn) (sim : Sim Fn) (d : SimulationDef) : Prop where
  entities : d.entities = sim.entityDefs
  components : d.components = sim.componentDefs
  handles : ∀ handle ∈ sim.entities, ∃ entity ∈ d.entities,
    handle = Grpc.Entity.init sim.name entity.components entity.id
  systems : ∃ running added, sim.systemFns = running ++ added ∧ running.map Prod.fst = fns ∧
    List.Forall₂ (Local.Compiled compile sim) d.systems running

/-- What a turn leaves alone. -/
theorem turn_keeps {S : Type} [SimulationStore S] {s s' : Sim Fn × Engine S} {t : Turn Fn}
    {o : Answered E} (h : turn F np compile s t = some (o, s')) : s'.1.name = s.1.name ∧
      s'.1.entityDefs = s.1.entityDefs ∧ s'.1.componentDefs = s.1.componentDefs ∧
      s'.1.entityMap = s.1.entityMap := by
  cases t with
  | act a =>
    obtain ⟨p, hact, heq⟩ := Option.map_eq_some_iff.mp h
    cases heq
    exact act_keeps hact
  | other r =>
    obtain ⟨p, -, heq⟩ := Option.map_eq_some_iff.mp h
    cases heq
    exact ⟨rfl, rfl, rfl, rfl⟩

/-- The handles of a created simulation are those of its entities. -/
theorem created_handles {l : Local Fn} {gen : ℕ}
    (h : Local.create name components entities systemFns initFn gen = some l) :
    l.sim.started = false ∧ ∀ handle ∈ l.sim.entityMap.values, ∃ entity ∈ l.sim.entityDefs,
      handle = Grpc.Entity.init name entity.components entity.id := by
  rw [Local.create] at h
  split at h <;> cases h
  refine ⟨rfl, fun handle hmem => ?_⟩
  obtain ⟨⟨key, handle⟩, hentry, rfl⟩ := List.mem_map.mp hmem
  obtain ⟨entity, hentity, -, rfl⟩ :=
    OrderedDict.get?_index (OrderedDict.get?_eq_some_iff.mpr hentry)
  exact ⟨entity, hentity, rfl⟩

/-- A created simulation has not started. -/
theorem created_running {l : Local Fn} {gen : ℕ}
    (h : Local.create name components entities systemFns initFn gen = some l) (fns : List Fn) :
    l.Running compile fns := by
  intro hs
  rw [(created_handles h).1] at hs
  cases hs

/-- What the engine has registered for a simulation that has started. -/
theorem Agrees.registered {s : Sim Fn × Engine Stores} {l : Local Fn} (h : Agrees name s l)
    (hstarted : s.1.started = true) : ∃ reg, s.2.sims.get? name = some reg ∧ reg.store.Wf ∧
      l.Registered (reg.map Stores.view) := by
  have hstarted' : l.sim.started = true := by rw [h.sim, hstarted]
  obtain ⟨map, hmap⟩ := Option.isSome_iff_exists.mp (h.shown.present hstarted')
  obtain ⟨reg', hget', -, hreg⟩ := h.shown.get? hmap
  rw [h.sim, h.named, Engine.view, Engine.get?_map] at hget'
  obtain ⟨reg, hget, rfl⟩ := Option.map_eq_some_iff.mp hget'
  exact ⟨reg, hget, h.wf name reg hget, hreg⟩

/-- A simulation that has not started is not locked. -/
theorem Agrees.unlocked {s : Sim Fn × Engine Stores} {l : Local Fn} (h : Agrees name s l)
    (hstopped : s.1.started = false) :
    ((s.2.sims.get? name).map Bentobox.Simulation.locked).getD false = false := by
  cases hget : s.2.sims.get? name with
  | none => rfl
  | some reg =>
    have hview : s.2.view.sims.get? l.sim.name = some (reg.map Stores.view) := by
      rw [h.sim, h.named]
      exact Engine.get?_view hget
    exact (h.shown.registered _ hview).unlocked (by rw [h.sim, hstopped])

/-- A run from its creation on leads to a simulation whose systems were compiled from the functions
that run. These are the ones that it started with. -/
theorem running_of_run (he : e.Reachable F)
    (hcreate : create F compile name components entities systemFns initFn e = some (.ok sim, e₁))
    {turns : List (Turn Fn)} (hfits : ∀ t ∈ turns, t.Fits name) {answers : List (Answered E)}
    {s : Sim Fn × Engine Stores}
    (hrun : Machine.run (Sim.turn F np compile) (sim, e₁) turns = some (answers, s)) :
    ∃ l fns, Agrees name s l ∧ l.Running compile fns ∧
      (s.1.started = true → StartedWith F np compile (sim, e₁) turns fns) := by
  obtain ⟨l₀, hl, hagrees₀⟩ := create_agrees he.wf hcreate
  induction turns using List.reverseRecOn generalizing answers s with
  | nil =>
    cases hrun
    refine ⟨l₀, [], hagrees₀, created_running hl [], fun hs => ?_⟩
    rw [← hagrees₀.sim, (created_handles hl).1] at hs
    cases hs
  | append_singleton turns t ih =>
    obtain ⟨answers₁, s₁, answers₂, hrun₁, hlast, -⟩ := Machine.run_append_eq_some_iff.mp hrun
    obtain ⟨o, s₂, _, hturn, hnil, -⟩ := Machine.run_cons_eq_some_iff.mp hlast
    cases hnil
    obtain ⟨l, fns, hagrees, hrunning, hstarted⟩ :=
      ih (fun t ht => hfits t (List.mem_append_left _ ht)) hrun₁
    have hstarted' : l.sim.started = true → StartedWith F np compile (sim, e₁) turns fns :=
      fun hs => hstarted (by rw [← hagrees.sim, hs])
    obtain ⟨l', hstep, hagrees'⟩ := hagrees.turn (hfits t (by simp)) hturn
    cases hstep with
    | @act _ a r h =>
      refine ⟨l', _, hagrees', hrunning.act h, fun hs => ?_⟩
      rw [← hagrees'.sim] at hs
      obtain ⟨hstop, hbefore | ⟨hstopped, rfl, rfl⟩⟩ := Local.started_of_act h hs
      · rw [Local.runningAfter_of_started hbefore]
        exact (hstarted' hbefore).append (by simpa using hstop)
      · rw [hagrees.sim] at hstopped
        refine ⟨turns, [], answers₁, s₁, s, rfl, hrun₁, hstopped, hturn, ?_, List.not_mem_nil⟩
        rw [Local.runningAfter, hagrees.sim, if_neg (by simp [hstopped])]
    | other r =>
      refine ⟨_, fns, hagrees', hrunning, fun hs => ?_⟩
      rw [← hagrees'.sim] at hs
      exact (hstarted' hs).append (by simp)

/-- **What the engine runs is what the simulation has recorded**, in every state in which it has
started, and its entities are those that it was created with. -/
theorem run_recorded (he : e.Reachable F)
    (hcreate : create F compile name components entities systemFns initFn e = some (.ok sim, e₁))
    {turns : List (Turn Fn)} (hfits : ∀ t ∈ turns, t.Fits name) {answers : List (Answered E)}
    {s : Sim Fn × Engine Stores}
    (hrun : Machine.run (Sim.turn F np compile) (sim, e₁) turns = some (answers, s)) :
    s.1.entityDefs = sim.entityDefs ∧ s.1.entityMap = sim.entityMap ∧
      (s.1.started = true → ∃ reg fns, s.2.sims.get? name = some reg ∧
        StartedWith F np compile (sim, e₁) turns fns ∧ Recorded compile fns s.1 reg.simDef) := by
  obtain ⟨l₀, hl, hagrees₀⟩ := create_agrees he.wf hcreate
  obtain ⟨l, fns, hagrees, hrunning, hwith⟩ := running_of_run he hcreate hfits hrun
  have hkept : s.1.entityDefs = sim.entityDefs ∧ s.1.entityMap = sim.entityMap := by
    refine Machine.invariant (P := fun s : Sim Fn × Engine Stores =>
      s.1.entityDefs = sim.entityDefs ∧ s.1.entityMap = sim.entityMap)
      (fun s t o s' hs ht => ?_) ⟨rfl, rfl⟩ hrun
    obtain ⟨-, hdefs, -, hmap⟩ := turn_keeps ht
    exact ⟨hdefs.trans hs.1, hmap.trans hs.2⟩
  refine ⟨hkept.1, hkept.2, fun hstarted => ?_⟩
  obtain ⟨reg, hget, -, hreg⟩ := hagrees.registered hstarted
  have hsim₀ : l₀.sim = sim := hagrees₀.sim
  have hentities : reg.simDef.entities = s.1.entityDefs := by
    rw [← hagrees.sim]
    exact hreg.entities
  refine ⟨reg, fns, hget, hwith hstarted, hentities, ?_, fun handle hmem => ?_, ?_⟩
  · rw [← hagrees.sim]
    exact hreg.components
  · rw [Simulation.entities, hkept.2, ← hsim₀] at hmem
    obtain ⟨entity, hentity, rfl⟩ := (created_handles hl).2 handle hmem
    refine ⟨entity, ?_, by rw [hagrees.named]⟩
    rw [hentities, hkept.1, ← hsim₀]
    exact hentity
  · have hstarted' : l.sim.started = true := by rw [hagrees.sim, hstarted]
    have hsystems : reg.simDef.systems = l.systems := hreg.systems hstarted'
    rw [hsystems, ← hagrees.sim]
    exact hrunning hstarted'

/-- The counter that runs is recorded. -/
theorem run_recorded_counter : ∃ sim e₁ answers s reg fns, createCounter = some (.ok sim, e₁) ∧
    Machine.run (turn default elementwise precompiled) (sim, e₁)
      (prepareCounter ++ .act .start :: useCounter) = some (answers, s) ∧
    s.2.sims.get? "sim" = some reg ∧ reg.simDef.systems.length = 1 ∧
    StartedWith default elementwise precompiled (sim, e₁)
      (prepareCounter ++ .act .start :: useCounter) fns ∧
    Recorded precompiled fns s.1 reg.simDef := by
  obtain ⟨sim, e₁, answers, s, reg, hcreate, hrun, hstarted, hget, hlength⟩ := counting
  have hreach : (Engine.new 0 : Engine Stores).Reachable default := ⟨0, [], [], rfl⟩
  obtain ⟨reg', fns, hget', hwith, hrecorded⟩ :=
    (run_recorded hreach hcreate countingTurns_fits hrun).2.2 hstarted
  cases hget.symm.trans hget'
  exact ⟨sim, e₁, answers, s, reg, fns, hcreate, hrun, hget, hlength, hwith, hrecorded⟩

/-! ## The `with` block -/

/-- Nothing but a stop ends a simulation that has started. -/
theorem turn_started {S : Type} [SimulationStore S] {s s' : Sim Fn × Engine S} {t : Turn Fn}
    {o : Answered E} (ht : t ≠ .act .stop) (h : turn F np compile s t = some (o, s'))
    (hs : s.1.started = true) : s'.1.started = true := by
  obtain ⟨sim, e⟩ := s
  have hstarted : sim.started = true := hs
  cases t with
  | other r =>
    obtain ⟨p, -, heq⟩ := Option.map_eq_some_iff.mp h
    cases heq
    exact hs
  | act a =>
    obtain ⟨p, hact, heq⟩ := Option.map_eq_some_iff.mp h
    cases heq
    cases a with
    | start =>
      simp only [act, start, hstarted, if_true] at hact
      cases hact
      exact hs
    | stop => exact absurd rfl ht
    | step =>
      simp only [act, step, hstarted, if_true] at hact
      obtain ⟨q, -, heq⟩ := Option.map_eq_some_iff.mp hact
      cases heq
      exact hs
    | init initFn | system systemFn =>
      cases hact
      exact hs
    | getAttr component name | setAttr component name value =>
      obtain ⟨q, -, heq⟩ := Option.map_eq_some_iff.mp hact
      cases heq
      exact hs

/-- A start that returns has started. -/
theorem started_of_start {S : Type} [SimulationStore S] {s s' : Sim Fn × Engine S}
    {o : Option PyValue} (h : turn F np compile s (.act .start) = some (.result (.ok o), s')) :
    s'.1.started = true := by
  obtain ⟨⟨r, sim', e'⟩, hact, heq⟩ := Option.map_eq_some_iff.mp h
  cases heq
  simp only [act, start] at hact
  split_ifs at hact with hstarted
  · cases hact
    exact hstarted
  · split at hact
    · cases hact
    · obtain ⟨⟨x | d, e₁⟩, -, heq⟩ := Option.map_eq_some_iff.mp hact <;> cases heq
      rfl

/-- A turn that does not concern another simulation leaves it. -/
theorem turn_ne {s s' : Sim Fn × Engine Stores} {t : Turn Fn} {o : Answered E}
    (ht : t.Fits s.1.name) (h : turn F np compile s t = some (o, s')) {other : String}
    (hne : other ≠ s.1.name) (hother : ∀ r, t = .other r → r.names other = false) :
    s'.2.sims.get? other = s.2.sims.get? other := by
  cases t with
  | other r =>
    obtain ⟨p, hstep, heq⟩ := Option.map_eq_some_iff.mp h
    cases heq
    exact Engine.get?_step (hother r rfl) hstep
  | act a =>
    obtain ⟨p, hact, heq⟩ := Option.map_eq_some_iff.mp h
    cases heq
    rcases act_step ht hact with heq | ⟨request, o, hnames, hstep⟩
    · rw [heq]
    · exact Engine.get?_step (Request.names_eq_false hnames hne.symm) hstep

/-- **A `with` block** whose start returns leaves the engine without the simulation, whatever its
body does and raises short of stopping. Every other simulation is as the other clients leave it: no
turn of the block changes it but a request of a client that names it. -/
theorem run_withBlock (he : e.Reachable F)
    (hcreate : create F compile name components entities systemFns initFn e = some (.ok sim, e₁))
    {before body : List (Turn Fn)} (hbefore : ∀ t ∈ before, t.Fits name)
    (hbody : ∀ t ∈ body, t.Fits name ∧ t ≠ .act .stop) {answers answers' : List (Answered E)}
    {s₀ s₁ s₂ s₃ : Sim Fn × Engine Stores} {returned : Option PyValue} {exited : Answered E}
    (hrun : Machine.run (turn F np compile) (sim, e₁) before = some (answers, s₀))
    (henter : turn F np compile s₀ (.act .start) = some (.result (.ok returned), s₁))
    (hblock : Machine.run (turn F np compile) s₁ body = some (answers', s₂))
    (hexit : turn F np compile s₂ (.act .stop) = some (exited, s₃)) :
    exited = .result (.ok none) ∧ s₃.2.sims.get? name = none ∧
      ∀ other, other ≠ name → Machine.Along (turn F np compile) (fun s t => ∀ o s',
          turn F np compile s t = some (o, s') →
          s'.2.sims.get? other ≠ s.2.sims.get? other → ∃ r, t = .other r ∧ r.names other = true)
        s₀ (.act .start :: body ++ [.act .stop]) := by
  obtain ⟨l, hl, hagrees⟩ := create_agrees he.wf hcreate
  obtain ⟨l₀, hruns₀, hagrees₀⟩ := hagrees.run hbefore hrun
  obtain ⟨l₁, -, hagrees₁⟩ := hagrees₀.turn (t := .act .start) trivial henter
  obtain ⟨l₂, -, hagrees₂⟩ := hagrees₁.run (fun t ht => (hbody t ht).1) hblock
  obtain ⟨l₃, hstop, hagrees₃⟩ := hagrees₂.turn (t := .act .stop) trivial hexit
  have hstarted : s₂.1.started = true := by
    refine Machine.invariant_of_along (P := fun s : Sim Fn × Engine Stores => s.1.started = true)
      (C := fun _ t => t ≠ .act .stop) (fun s t o s' hs ht hstep => turn_started ht hstep hs)
      (started_of_start henter) (Machine.along_of_mem (fun _ t ht => (hbody t ht).2) s₁) hblock
  refine ⟨?_, ?_, fun other hne => ?_⟩
  · cases hstop with
    | act h =>
      simp only [Local.act, Local.stop, hagrees₂.sim, hstarted, if_true] at h
      cases h
      rfl
  · have hgone : l₃.store = none := by
      cases hstop with
      | act h =>
        simp only [Local.act, Local.stop, hagrees₂.sim, hstarted, if_true] at h
        cases h
        rfl
    have hget := hagrees₃.shown.absent hgone
    rw [hagrees₃.sim, hagrees₃.named, Engine.view, Engine.get?_map] at hget
    exact Option.map_eq_none_iff.mp hget
  · -- the name of the simulation stays what it is
    refine Machine.along_of_invariant (P := fun s : Sim Fn × Engine Stores => s.1.name = name)
      (Q := fun t : Turn Fn => t.Fits name) (fun s t o s' hs _ h => (turn_keeps h).1.trans hs)
      (fun s t hs ht o s' h hchanged => ?_) hagrees₀.named fun t ht => ?_
    · by_contra hno
      rw [← hs] at ht hne
      refine hchanged (turn_ne ht h hne fun r hr => ?_)
      by_contra hnames
      exact hno ⟨r, hr, by simpa using hnames⟩
    · simp only [List.cons_append, List.mem_cons, List.mem_append, List.not_mem_nil, or_false] at ht
      rcases ht with rfl | ht | rfl
      · trivial
      · exact (hbody t ht).1
      · trivial

/-- The counter in a `with` block. -/
theorem run_withBlock_counter : ∃ sim e₁ answers s₀ returned s₁ answers' s₂ exited s₃,
    createCounter = some (.ok sim, e₁) ∧
    Machine.run (turn default elementwise precompiled) (sim, e₁) prepareCounter =
      some (answers, s₀) ∧
    turn default elementwise precompiled s₀ (.act .start) = some (.result (.ok returned), s₁) ∧
    Machine.run (turn default elementwise precompiled) s₁ useCounter = some (answers', s₂) ∧
    turn default elementwise precompiled s₂ (.act .stop) = some (exited, s₃) ∧
    exited = .result (.ok none) ∧ s₃.2.sims.get? "sim" = none ∧
      ∀ other, other ≠ "sim" → Machine.Along (turn default elementwise precompiled) (fun s t =>
          ∀ o s', turn default elementwise precompiled s t = some (o, s') →
          s'.2.sims.get? other ≠ s.2.sims.get? other → ∃ r, t = .other r ∧ r.names other = true)
        s₀ (.act .start :: useCounter ++ [.act .stop]) := by
  have hreach : (Engine.new 0 : Engine Stores).Reachable default := ⟨0, [], [], rfl⟩
  have hrun : (createCounter.bind fun p => p.1.toOption.bind fun sim =>
      (Machine.run (turn default elementwise precompiled) (sim, p.2) prepareCounter).bind fun r =>
        (turn default elementwise precompiled r.2 (.act .start)).bind fun r =>
          (Machine.run (turn default elementwise precompiled) r.2 useCounter).bind fun q =>
            (turn default elementwise precompiled q.2 (.act .stop)).map fun _ =>
              r.1 matches .result (.ok _)) = some true := by
    decide +kernel
  obtain ⟨⟨r, e₁⟩, hcreate, hrun⟩ := Option.bind_eq_some_iff.mp hrun
  obtain ⟨sim, hsim, hrun⟩ := Option.bind_eq_some_iff.mp hrun
  obtain ⟨⟨answers, s₀⟩, hbefore, hrun⟩ := Option.bind_eq_some_iff.mp hrun
  obtain ⟨⟨entered, s₁⟩, henter, hrun⟩ := Option.bind_eq_some_iff.mp hrun
  obtain ⟨⟨answers', s₂⟩, hblock, hrun⟩ := Option.bind_eq_some_iff.mp hrun
  obtain ⟨⟨exited, s₃⟩, hexit, hok⟩ := Option.map_eq_some_iff.mp hrun
  cases Fallible.toOption_eq_some_iff.mp hsim
  rcases entered with (x | returned) | o
  · cases hok
  · refine ⟨sim, e₁, answers, s₀, returned, s₁, answers', s₂, exited, s₃, hcreate, hbefore, henter,
      hblock, hexit, run_withBlock hreach hcreate ?_ ?_ hbefore henter hblock hexit⟩
    · exact fun t ht => countingTurns_fits t (List.mem_append_left _ ht)
    · refine fun t ht => ⟨useCounter_fits t ht, ?_⟩
      rintro rfl
      simp [useCounter] at ht
  · cases hok

end Sim
end Bentobox.Sdk
