import Bentobox.Sdk.Meaning
import Bentobox.Sdk.StraightLine

/-!
# Straight-line systems in a simulation

From the functions of a script to the attributes on the engine: a step of a simulation whose
functions are straight-line code executes them on its attributes, one after another, where each
is plotted accurately (`Sim.step_executes`).
-/
namespace Bentobox.Sdk

open AttributeStore SimulationStore

namespace StraightLine

/-- The graph that plotting the statements of a function records. -/
def compile (py : Python) (stmts : List Statement) (_ : List EntityDef) (_ : List ComponentDef) :
    Except PythonError Graph :=
  (fun p => p.recorder.graph) <$> stmts.foldlM (Plot.exec py) .start

/-- Call a function on the attributes; it starts without locals. -/
def Direct.call (F : FloatOps) (m : AttributeMap) (stmts : List Statement) :
    Option AttributeMap :=
  (stmts.foldlM (Direct.exec F) ⟨fun _ => none, m⟩).map Direct.store

/-- The function is plotted so that its graph ends in the store of the call. -/
structure Accurate (F : FloatOps) (py : Python) (m : AttributeMap) (stmts : List Statement) :
    Prop where
  plain : Machine.Along (State.step F py) (State.Plain F py) (State.start m) stmts
  sound : ∀ us t, Machine.run (State.step F py) (State.start m) stmts = some (us, t) →
    State.Sound F m t.direct.store ((State.start m).lasting F py stmts)

variable {F : FloatOps} {py : Python}

/-- Plotting and execution advance together. -/
theorem run_of_foldlM {stmts : List Statement} {t : State} {p : Plot} {d : Direct}
    (hplot : stmts.foldlM (Plot.exec py) t.plot = .ok p)
    (hdirect : stmts.foldlM (Direct.exec F) t.direct = some d) :
    ∃ us, Machine.run (State.step F py) t stmts = some (us, ⟨p, d⟩) := by
  induction stmts generalizing t with
  | nil =>
    cases hplot
    cases hdirect
    exact ⟨[], rfl⟩
  | cons st stmts ih =>
    rw [List.foldlM_cons] at hplot hdirect
    obtain ⟨p₁, hp₁, hplot⟩ := Fallible.result_bind_eq_ok_iff.mp hplot
    obtain ⟨d₁, hd₁, hdirect⟩ := Option.bind_eq_some_iff.mp hdirect
    have hstep : t.step F py st = some ((), ⟨p₁, d₁⟩) := by
      rw [State.step, hp₁, hd₁]
    obtain ⟨us, hrun⟩ := ih (t := ⟨p₁, d₁⟩) hplot hdirect
    exact ⟨() :: us, Machine.run_cons_eq_some_iff.mpr ⟨(), _, us, hstep, hrun, rfl⟩⟩

/-- **A function that is plotted accurately**: its graph does what calling it does. -/
theorem runGraph_of_accurate {s : Env Stores} (hs : s.store.Wf) {stmts : List Statement}
    {entityDefs : List EntityDef} {componentDefs : List ComponentDef} {graph : Graph}
    (hcompile : compile py stmts entityDefs componentDefs = .ok graph)
    (h : Accurate F py s.store.view stmts) {m : AttributeMap}
    (hcall : Direct.call F s.store.view stmts = some m) :
    ∃ s', runGraph F graph s = (.ok (), s') ∧ s'.store.view = m := by
  obtain ⟨p, hplot, rfl⟩ := Fallible.map_eq_ok_iff.mp hcompile
  obtain ⟨d, hdirect, rfl⟩ := Option.map_eq_some_iff.mp hcall
  obtain ⟨us, hrun⟩ := run_of_foldlM (t := State.start s.store.view) hplot hdirect
  obtain ⟨hinv, hsettled⟩ := State.settled_iff_of_run hrun h.plain
  exact (State.agrees_iff_settled hs hinv).mpr (hsettled.mpr (h.sound us _ hrun))

/-- What straight-line functions mean. -/
def meaning (F : FloatOps) (py : Python) : Meaning F (compile py) where
  call _ := Direct.call F
  Accurate _ _ := Accurate F py
  runs hs hcompile h hcall := runGraph_of_accurate hs.wf hcompile h hcall

/-- A function of one assignment to an attribute is accurate when the assignment is plain, and does
not just copy the attribute to itself. -/
theorem accurate_assign {m : AttributeMap} {target : AttributeRef} {value : Expr Leaf}
    (hplain : (State.start m).Plain F py (.assign target value))
    (hne : value.object py Plot.start.object ≠ .ok (.graphNode (.retrieve target))) :
    Accurate F py m [.assign target value] := by
  refine ⟨⟨hplain, fun _ _ _ => trivial⟩, fun us t hrun => ?_⟩
  obtain ⟨u, t₁, us', hstep, hrest, -⟩ := Machine.run_cons_eq_some_iff.mp hrun
  cases hrest
  obtain ⟨w, hw, hdirect⟩ := Option.map_eq_some_iff.mp (State.step_eq_some hstep).2
  have hleaf : Plot.start.valueIn F m.valuation = Direct.value ⟨fun _ => none, m⟩ := by
    funext l
    cases l <;> rfl
  have hlasting : (State.start m).lasting F py [.assign target value] =
      [⟨Plot.start, target, value⟩] := by
    have hrecorded : (State.start m).recorded py (.assign target value) =
        some ⟨Plot.start, target, value⟩ := if_neg hne
    rw [State.lasting, hstep, hrecorded]
    rfl
  rw [hlasting, ← hdirect]
  refine ⟨fun pre a post h => ?_, fun ref href => ?_⟩
  · obtain ⟨rfl, rfl⟩ : pre = [] ∧ a = ⟨Plot.start, target, value⟩ := by
      cases pre with
      | nil => exact ⟨rfl, (List.cons.inj h).1.symm⟩
      | cons b pre => exact absurd (List.cons.inj h).2 (by simp)
    refine ⟨w, AttributeMap.value_set_self _ _ _, ?_⟩
    have hlate : m.overlay (m.set target w) [] = m := AttributeMap.ext rfl fun _ => rfl
    rw [List.map_nil, State.start, hlate, Assigned.storedIn, hleaf]
    exact hw
  · exact AttributeMap.value_set_ne _ (by simpa using href) _

/-- `x = 0` -/
def clear : Statement := .assign ⟨1, "C", "x"⟩ (.const (.int 0))

/-- `x += 1` -/
def tick : Statement := .augAssign .add ⟨1, "C", "x"⟩ (.const (.int 1))

theorem accurate_clear (m : AttributeMap) : Accurate default default m [clear] :=
  accurate_assign ⟨rfl, fun _ => ⟨_, rfl, rfl⟩⟩ (by rintro ⟨⟩)

theorem accurate_tick (m : AttributeMap) : Accurate default default m [tick] :=
  accurate_assign ⟨rfl, fun _ => ⟨trivial, ⟨_, rfl, rfl⟩, by rintro a b v ⟨⟩ ⟨⟩ ⟨⟩⟩⟩
    (by rintro ⟨⟩)

end StraightLine

namespace Sim
open StraightLine
variable {F : FloatOps} {np : Numpy} {py : Python} {name : String}
  {components : List ComponentDef} {entities : List EntityDef}
  {systemFns : List (List Statement)} {initFn : Option (List Statement)}
  {sim : Sim (List Statement)} {e e₁ : Engine Stores}

/-- **A step of a simulation executes its functions**, all those that it had when it started, on the
attributes that it has, where they are plotted accurately. -/
theorem step_executes (he : e.Reachable F)
    (hcreate : create F (compile py) name components entities systemFns initFn e =
      some (.ok sim, e₁)) {turns : List (Turn (List Statement))} (hfits : ∀ t ∈ turns, t.Fits name)
    {answers : List (Answered PythonError)} {s : Sim (List Statement) × Engine Stores}
    (hrun : Machine.run (turn F np (compile py)) (sim, e₁) turns = some (answers, s))
    (hstarted : s.1.started = true) :
    ∃ reg fns, s.2.sims.get? name = some reg ∧
      StartedWith F np (compile py) (sim, e₁) turns fns ∧
      ∀ m, (meaning F py).AllAccurate s.1.entityDefs s.1.componentDefs reg.store.view fns →
        (meaning F py).callAll s.1.entityDefs reg.store.view fns = some m →
        ∃ s' reg', turn F np (compile py) s (.act .step) = some (.result (.ok none), s') ∧
          s'.2.sims.get? name = some reg' ∧ reg'.store.view = m := by
  obtain ⟨reg, running, hget, hsteady, hnamed, hwith, hcompiled⟩ :=
    registered_of_run he hcreate hfits hrun hstarted
  refine ⟨reg, running.map Prod.fst, hget, hwith, fun m haccurate hcalls => ?_⟩
  obtain ⟨s₁, hsteps, rfl⟩ := (meaning F py).runSystems hcompiled (s := ⟨reg.store, s.2.gen⟩)
    hsteady haccurate hcalls
  have hstep : Engine.step F s.2 (.stepSimulation name) =
      some (.empty, s.2.register name { reg with locked := true } s₁) := by
    simp only [Engine.step, Engine.stepSimulation, hget, Engine.runOn, hsteps]
    rfl
  have hcall : Client.stepSim F name s.2 =
      some (.ok (), s.2.register name { reg with locked := true } s₁) := by
    rw [Client.stepSim, Client.call, hstep]
    rfl
  refine ⟨(s.1, s.2.register name { reg with locked := true } s₁), _, ?_,
    OrderedDict.get?_insert_self _ _ _, rfl⟩
  simp only [turn, act, step, hstarted, if_true, hnamed, hcall]
  rfl

/-- A simulation of one entity, whose functions clear and tick. -/
def createTicker : Option (Except (SimError PythonError) (Sim (List Statement)) × Engine Stores) :=
  create default (compile default) "ticker"
    [⟨"C", (∅ : OrderedDict String DataType).insert "x" (.primitive .int32)⟩] [⟨0, ["C"]⟩] [[tick]]
    (some [clear]) (Engine.new 0)

/-- The first step ticks. -/
theorem step_executes_ticker : ∃ sim e₁ answers s s' m reg reg',
    createTicker = some (.ok sim, e₁) ∧
    Machine.run (turn default elementwise (compile default)) (sim, e₁) [.act .start] =
      some (answers, s) ∧
    s.2.sims.get? "ticker" = some reg ∧ Direct.call default reg.store.view [tick] = some m ∧
    turn default elementwise (compile default) s (.act .step) = some (.result (.ok none), s') ∧
    s'.2.sims.get? "ticker" = some reg' ∧ reg'.store.view = m := by
  have hreach : (Engine.new 0 : Engine Stores).Reachable default := ⟨0, [], [], rfl⟩
  have hcheck : (createTicker.bind fun p => p.1.toOption.bind fun sim =>
      (Machine.run (turn default elementwise (compile default)) (sim, p.2) [.act .start]).bind
        fun r => (r.2.2.sims.get? "ticker").map fun reg =>
          (r.2.1.started, sim.systemFns.map Prod.fst,
            (Direct.call default reg.store.view [tick]).isSome)) =
      some (true, [[tick]], true) := by
    decide +kernel
  obtain ⟨⟨r, e₁⟩, hcreate, hcheck⟩ := Option.bind_eq_some_iff.mp hcheck
  obtain ⟨sim, hsim, hcheck⟩ := Option.bind_eq_some_iff.mp hcheck
  obtain ⟨⟨answers, s⟩, hrun, hcheck⟩ := Option.bind_eq_some_iff.mp hcheck
  obtain ⟨reg, hget, hcheck⟩ := Option.map_eq_some_iff.mp hcheck
  simp only [Prod.mk.injEq] at hcheck
  obtain ⟨hstarted, hfns, hcall⟩ := hcheck
  obtain ⟨m, hcall⟩ := Option.isSome_iff_exists.mp hcall
  cases Fallible.toOption_eq_some_iff.mp hsim
  obtain ⟨reg', fns, hget', ⟨before, after, answers₀, s₀, s₁, hturns, hbefore, -, -, rfl, -⟩,
    hexec⟩ := step_executes hreach hcreate (by simp [Turn.Fits]) hrun hstarted
  cases hget.symm.trans hget'
  -- the start is the first turn
  obtain rfl : before = [] := by
    cases before with
    | nil => rfl
    | cons t before => simp at hturns
  cases hbefore
  rw [hfns] at hexec
  obtain ⟨s', reg', hturn, hget', hview⟩ := hexec m ⟨accurate_tick _, fun _ _ => trivial⟩ (by
    rw [Meaning.callAll, List.foldlM_cons]
    exact Option.bind_eq_some_iff.mpr ⟨m, hcall, rfl⟩)
  exact ⟨sim, e₁, answers, s, s', m, reg, reg', hcreate, hrun, hget, hcall, hturn, hget', hview⟩

/-- **The start of a simulation executes its initial function** on attributes without values, where
it is plotted accurately. -/
theorem start_executes (he : e.Reachable F)
    (hcreate : create F (compile py) name components entities systemFns initFn e =
      some (.ok sim, e₁)) {turns : List (Turn (List Statement))} (hfits : ∀ t ∈ turns, t.Fits name)
    {answers : List (Answered PythonError)} {s : Sim (List Statement) × Engine Stores}
    (hrun : Machine.run (turn F np (compile py)) (sim, e₁) turns = some (answers, s))
    (hstopped : s.1.started = false) {stmts : List Statement} (hinit : s.1.initFn = some stmts)
    {d : SimulationDef} (hbuild : s.1.build (compile py) true = .ok d) :
    ∃ stores, Stores.construct d = .ok (d.withIds, stores) ∧
      (∀ ref, stores.view.value ref = none) ∧
      ∀ m, Accurate F py stores.view stmts → Direct.call F stores.view stmts = some m →
        ∃ s' reg, turn F np (compile py) s (.act .start) = some (.result (.ok none), s') ∧
          s'.1.started = true ∧ s'.2.sims.get? name = some reg ∧ reg.store.view = m := by
  obtain ⟨l, -, hagrees, -⟩ := running_of_run he hcreate hfits hrun
  obtain ⟨hname, -, -, -, hgraph⟩ := build_eq_ok hbuild
  have hname' : d.name = name := hname.trans hagrees.named
  rw [initGraph, hinit] at hgraph
  obtain ⟨stores, hc, hwf, hnone, -⟩ := construct_spec d
  refine ⟨stores, hc, hnone, fun m haccurate hcall => ?_⟩
  obtain ⟨s₁, hinits, rfl⟩ := runGraph_of_accurate (s := ⟨stores, s.2.gen⟩) hwf hgraph haccurate
    hcall
  have hlock : ((s.2.sims.get? d.name).map Bentobox.Simulation.locked).getD false = false := by
    rw [hname']
    exact hagrees.unlocked hstopped
  have happly : Client.applySim F d s.2 =
      some (.ok d.withIds, s.2.register name ⟨d.withIds, stores, false⟩ s₁) := by
    rw [Client.applySim_eq hlock (construct_stores hc), hname']
    exact congrArg (outcome _ _ _) hinits
  refine ⟨(s.1.committed d.withIds, s.2.register name ⟨d.withIds, stores, false⟩ s₁), _, ?_, rfl,
    OrderedDict.get?_insert_self _ _ _, rfl⟩
  simp only [turn, act, start, hstopped, Bool.false_eq_true, if_false, hbuild, happly]
  rfl

/-- The start clears. -/
theorem start_executes_ticker : ∃ sim e₁ s' d stores m reg, createTicker = some (.ok sim, e₁) ∧
    sim.build (compile default) true = .ok d ∧ Stores.construct d = .ok (d.withIds, stores) ∧
    Direct.call default stores.view [clear] = some m ∧
    turn default elementwise (compile default) (sim, e₁) (.act .start) =
      some (.result (.ok none), s') ∧
    s'.1.started = true ∧ s'.2.sims.get? "ticker" = some reg ∧ reg.store.view = m := by
  have hreach : (Engine.new 0 : Engine Stores).Reachable default := ⟨0, [], [], rfl⟩
  have hcheck : (createTicker.bind fun p => p.1.toOption.bind fun sim =>
      (sim.build (compile default) true).toOption.bind fun d =>
        (Stores.construct d).toOption.map fun built =>
          (sim.started, sim.initFn, (Direct.call default built.2.view [clear]).isSome)) =
      some (false, some [clear], true) := by
    decide +kernel
  obtain ⟨⟨r, e₁⟩, hcreate, hcheck⟩ := Option.bind_eq_some_iff.mp hcheck
  obtain ⟨sim, hsim, hcheck⟩ := Option.bind_eq_some_iff.mp hcheck
  obtain ⟨d, hbuild, hcheck⟩ := Option.bind_eq_some_iff.mp hcheck
  obtain ⟨built, hbuilt, hcheck⟩ := Option.map_eq_some_iff.mp hcheck
  simp only [Prod.mk.injEq] at hcheck
  obtain ⟨hstopped, hinit, hcall⟩ := hcheck
  obtain ⟨m, hcall⟩ := Option.isSome_iff_exists.mp hcall
  cases Fallible.toOption_eq_some_iff.mp hsim
  obtain ⟨stores, hc, -, hexec⟩ := @start_executes default elementwise default _ _ _ _ _ _ _ _
    hreach hcreate [] (by simp) [] (sim, e₁) rfl hstopped _ hinit d
    (Fallible.toOption_eq_some_iff.mp hbuild)
  rw [Fallible.toOption_eq_some_iff.mp hbuilt] at hc
  cases hc
  obtain ⟨s', reg, hturn, hstarted, hget, hview⟩ := hexec m (accurate_clear _) hcall
  exact ⟨sim, e₁, s', d, stores, m, reg, hcreate, Fallible.toOption_eq_some_iff.mp hbuild,
    Fallible.toOption_eq_some_iff.mp hbuilt, hcall, hturn, hstarted, hget, hview⟩

end Sim
end Bentobox.Sdk
