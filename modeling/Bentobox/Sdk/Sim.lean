import Bentobox.Engine.Frozen
import Bentobox.Engine.Reapplication
import Bentobox.Sdk.Client

/-!
# A simulation of the SDK on the engine

`Simulation` of `sim.py` with everything it keeps, against an engine that serves other clients
too. The functions of the systems are of any type, and `compile` is any compiler of them.

What is done to the simulation is done to a `Local` one: an object with its own attributes, which
has no registry, no lock and no other clients (`Local.Shown.act`).
-/
namespace Bentobox.Sdk

open AttributeStore SimulationStore

/-- What a method returns, none if nothing, or raises. -/
abbrev Result (E : Type) : Type := Except (SimError E) (Option PyValue)

structure Sim (Fn : Type) extends Simulation where
  /-- Each function with the identifier of its system, zero if it has none yet. -/
  systemFns : List (Fn × UInt32)
  initFn : Option Fn

/-- What is done to a simulation. -/
inductive Act (Fn : Type)
  | start
  | stop
  | step
  | init (initFn : Fn)
  | system (systemFn : Fn)
  | getAttr (component : Grpc.Component) (name : String)
  | setAttr (component : Grpc.Component) (name : String) (value : PyValue)

namespace Sim
variable (F : FloatOps) (np : Numpy) {Fn E S : Type} [SimulationStore S]
  (compile : Fn → List EntityDef → List ComponentDef → Except E Graph)

def compileFn (sim : Sim Fn) (fn : Fn) : Except E Graph :=
  compile fn sim.entityDefs sim.componentDefs

/-- The definition of the systems, in the order of their functions. -/
def systemDefs (sim : Sim Fn) : Except E (List SystemDef) :=
  sim.systemFns.mapM fun s => (fun graph => ⟨s.2, graph⟩) <$> sim.compileFn compile s.1

def initGraph (sim : Sim Fn) : Except E Graph :=
  match sim.initFn with
  | some fn => sim.compileFn compile fn
  | none => .ok ⟨[], []⟩

/-- `build` -/
def build (sim : Sim Fn) (includeGraphs : Bool) : Except E SimulationDef :=
  if includeGraphs then do
    let systemDefs ← sim.systemDefs compile
    let initGraph ← sim.initGraph compile
    return ⟨sim.name, sim.entityDefs, sim.componentDefs, systemDefs, initGraph⟩
  else .ok ⟨sim.name, sim.entityDefs, sim.componentDefs, [], ⟨[], []⟩⟩

/-- `__init__` before the simulation is applied. -/
def unapplied (name : String) (components : List ComponentDef) (entities : List EntityDef)
    (systemFns : List Fn) (initFn : Option Fn) : Sim Fn where
  name := name
  started := false
  componentDefs := components
  entityDefs := entities
  entityMap := ∅
  systemFns := systemFns.map fun fn => (fn, 0)
  initFn := initFn

/-- `__init__` once the engine has answered. -/
def applied (sim : Sim Fn) (appliedProto : SimulationDef) : Sim Fn :=
  { sim with toSimulation := .init sim.name sim.componentDefs appliedProto }

/-- `__init__` -/
def create (name : String) (components : List ComponentDef) (entities : List EntityDef)
    (systemFns : List Fn) (initFn : Option Fn) : ClientCall S (SimError E) (Sim Fn) := fun e =>
  let sim := unapplied name components entities systemFns initFn
  match sim.build compile false with
  | .error x => some (.error (.compile x), e)
  | .ok d => (Client.applySim F d e).map fun p => ((p.1.map sim.applied).mapError .native, p.2)

/-- `start` once the engine has answered: the systems get their identifiers by position. -/
def committed (sim : Sim Fn) (appliedProto : SimulationDef) : Sim Fn :=
  { sim with
    started := true
    systemFns := (sim.systemFns.map Prod.fst).zipWith (fun fn s => (fn, s.id))
      appliedProto.systems }

def start (sim : Sim Fn) (e : Engine S) : Option (Result E × Sim Fn × Engine S) :=
  if sim.started then some (.ok none, sim, e)
  else match sim.build compile true with
    | .error x => some (.error (.compile x), sim, e)
    | .ok d => (Client.applySim F d e).map fun p => match p.1 with
      | .ok appliedProto => (.ok none, sim.committed appliedProto, p.2)
      | .error x => (.error (.native x), sim, p.2)

def stop (sim : Sim Fn) (e : Engine S) : Option (Result E × Sim Fn × Engine S) :=
  if sim.started then
    (Client.removeSim F sim.name e).map fun p => match p.1 with
      | .ok _ => (.ok none, { sim with started := false }, p.2)
      | .error x => (.error (.native x), sim, p.2)
  else some (.error (.native (.runtimeError
    "Cannot stop a Simulation that has not started yet.")), sim, e)

def step (sim : Sim Fn) (e : Engine S) : Option (Result E × Sim Fn × Engine S) :=
  if sim.started then
    (Client.stepSim F sim.name e).map fun p => (returnNone p.1, sim, p.2)
  else some (.error (.native (.runtimeError
    "Cannot step a simulation that has not started or already stopped.")), sim, e)

def init (sim : Sim Fn) (initFn : Fn) : Sim Fn := { sim with initFn := some initFn }

def system (sim : Sim Fn) (systemFn : Fn) : Sim Fn :=
  { sim with systemFns := sim.systemFns ++ [(systemFn, 0)] }

/-- Do something to the simulation. -/
def act (sim : Sim Fn) (e : Engine S) : Act Fn → Option (Result E × Sim Fn × Engine S)
  | .start => sim.start F compile e
  | .stop => sim.stop F e
  | .step => sim.step F e
  | .init initFn => some (.ok none, sim.init initFn, e)
  | .system systemFn => some (.ok none, sim.system systemFn, e)
  | .getAttr component name => (component.getAttr F np name e).map fun p => (p.1, sim, p.2)
  | .setAttr component name value =>
    (component.setAttr F np name value e).map fun p => (p.1, sim, p.2)

end Sim

/-- Something is done to the simulation, or another client is served. -/
inductive Turn (Fn : Type)
  | act (a : Act Fn)
  | other (r : Request)

inductive Answered (E : Type)
  | result (r : Result E)
  | response (o : Response)

/-- The components are those of the simulation, and the other clients do not name it. -/
def Turn.Fits {Fn : Type} (name : String) : Turn Fn → Prop
  | act (.getAttr component _) | act (.setAttr component _ _) => component.simName = name
  | act _ => True
  | other r => r.names name = false

section
variable (F : FloatOps) (np : Numpy) {Fn E S : Type} [SimulationStore S]
  (compile : Fn → List EntityDef → List ComponentDef → Except E Graph)

def Sim.turn (s : Sim Fn × Engine S) : Turn Fn → Option (Answered E × Sim Fn × Engine S)
  | .act a => (s.1.act F np compile s.2 a).map fun r => (.result r.1, r.2)
  | .other r => (Engine.step F s.2 r).map fun p => (.response p.1, s.1, p.2)

end

/-! ## A local simulation -/

/-- A simulation with its own attributes, none when it is gone, and the systems that it runs. -/
structure Local (Fn : Type) where
  sim : Sim Fn
  systems : List SystemDef
  store : Option AttributeMap
  gen : ℕ

namespace Local
variable (F : FloatOps) (np : Numpy) {Fn E α : Type}
  (compile : Fn → List EntityDef → List ComponentDef → Except E Graph)

/-- Run on the attributes. -/
def run (l : Local Fn) (m : Eval AttributeMap α) (onReturn : α → Result E)
    (onCatch : Exception → NativeError) : Option (Result E × Local Fn) :=
  match l.store with
  | none =>
    some (.error (.native (.lookupError "Could not find simulation with that name.")), l)
  | some map =>
    outcome onReturn (fun x => .error (.native (onCatch x)))
      (fun s => { l with store := some s.store, gen := s.gen }) (m ⟨map, l.gen⟩)

/-- Start from no attribute with a value, and run the initial graph. -/
def start (l : Local Fn) : Option (Result E × Local Fn) :=
  if l.sim.started then some (.ok none, l)
  else match l.sim.build compile true with
    | .error x => some (.error (.compile x), l)
    | .ok d => match (construct d : Except Fault (SimulationDef × AttributeMap)) with
      | .error _ => none
      | .ok (simDef, map) =>
        (run { l with systems := simDef.systems, store := some map } (runGraph F simDef.initGraph)
          (fun _ => .ok none) fun x => .runtimeError (formatError
            "Something went wrong while running the initGraph of the simulation" x)).map fun r =>
          match r.1 with
          | .ok _ => (r.1, { r.2 with sim := l.sim.committed simDef })
          | .error _ => r

def stop (l : Local Fn) : Option (Result E × Local Fn) :=
  if l.sim.started then
    some (.ok none, { l with sim := { l.sim with started := false }, store := none })
  else some (.error (.native (.runtimeError
    "Cannot stop a Simulation that has not started yet.")), l)

def step (l : Local Fn) : Option (Result E × Local Fn) :=
  if l.sim.started then
    l.run (Engine.runSystems F l.systems) (fun _ => .ok none) fun x => .runtimeError x.what
  else some (.error (.native (.runtimeError
    "Cannot step a simulation that has not started or already stopped.")), l)

def getAttr (l : Local Fn) (ref : AttributeRef) : Option (Result E × Local Fn) :=
  l.run (onStore (retrieve ref)) (fun value => (unwrap F np value).mapError .value) fun x =>
    .lookupError (formatError "RetrieveOp failed when retrieving requested attribute." x)

def setAttr (l : Local Fn) (ref : AttributeRef) (value : PyValue) :
    Option (Result E × Local Fn) :=
  match value.wrap np with
  | .error x => some (.error (.value x), l)
  | .ok v => l.run (mutateOp F ⟨ref, .const v⟩) (fun _ => .ok none) fun x =>
      .runtimeError (formatError "Setting attribute failed." x)

def act (l : Local Fn) : Act Fn → Option (Result E × Local Fn)
  | .start => l.start F compile
  | .stop => l.stop
  | .step => l.step F
  | .init initFn => some (.ok none, { l with sim := l.sim.init initFn })
  | .system systemFn => some (.ok none, { l with sim := l.sim.system systemFn })
  | .getAttr component name => l.getAttr F np (component.attrRef name)
  | .setAttr component name value => l.setAttr F np (component.attrRef name) value

/-- A step of the simulation; another client may draw random numbers, and does nothing else. -/
inductive Step : Local Fn → Turn Fn → Answered E → Local Fn → Prop
  | act {l l' : Local Fn} {a : Act Fn} {r : Result E} (h : l.act F np compile a = some (r, l')) :
    Step l (.act a) (.result r) l'
  | other (l : Local Fn) (r : Request) (o : Response) (gen : ℕ) :
    Step l (.other r) (.response o) { l with gen := gen }

end Local

/-! ## The engine behind a simulation -/

section
variable {F : FloatOps} {np : Numpy} {Fn E S : Type} [SimulationStore S]
  {compile : Fn → List EntityDef → List ComponentDef → Except E Graph}

/-- What an application returns or raises, unless the simulation is locked. -/
theorem Client.applySim_eq {e : Engine S} {d simDef : SimulationDef} {store : S}
    (hlock : ((e.sims.get? d.name).map Bentobox.Simulation.locked).getD false = false)
    (hc : construct d = .ok (simDef, store)) :
    applySim F d e = outcome (fun _ => .ok simDef)
      (fun x => .error (.runtimeError (formatError
        "Something went wrong while running the initGraph of the simulation" x)))
      (fun s => e.register d.name ⟨simDef, store, false⟩ s)
      (runGraph F simDef.initGraph ⟨store, e.gen⟩) := by
  have hstep : Engine.step F e (.applySimulation d) =
      Engine.createSimulation F d.name simDef store e := by
    simp only [Engine.step, Engine.applySimulation, hlock, hc, Bool.false_eq_true, if_false]
  have hret : ∀ _ : Unit, unpackSimulation (.simulation simDef) = some simDef := fun _ => rfl
  exact call_runOn hstep hret fun _ => rfl

/-- What is done to a simulation is done to it on the maps of the engine. -/
theorem Sim.act_view {e : Engine Stores} (he : e.All Stores.Wf) (sim : Sim Fn) (a : Act Fn) :
    sim.act F np compile e.view a =
      (sim.act F np compile e a).map fun r => (r.1, r.2.1, r.2.2.view) := by
  have hcall : ∀ {α : Type} (unpack : Response → Option α) (r : Request),
      Client.call F unpack r e.view = (Client.call F unpack r e).map fun p => (p.1, p.2.view) :=
    fun unpack r => Client.call_map (Engine.step_map F stores_refine_simulation he r)
  cases a with
  | start =>
    simp only [act, start]
    split_ifs
    · rfl
    · cases sim.build compile true with
      | error x => rfl
      | ok d =>
        simp only [Client.applySim, hcall, Option.map_map]
        congr 1
        funext p
        rcases p with ⟨x | d', e'⟩ <;> rfl
  | stop =>
    simp only [act, stop]
    split_ifs
    · simp only [Client.removeSim, hcall, Option.map_map]
      congr 1
      funext p
      rcases p with ⟨x | _, e'⟩ <;> rfl
    · rfl
  | step =>
    simp only [act, step]
    split_ifs
    · simp only [Client.stepSim, hcall, Option.map_map, Function.comp_def]
    · rfl
  | init initFn => rfl
  | system systemFn => rfl
  | getAttr component name =>
    simp only [act, Grpc.Component.getAttr, Client.getAttr, hcall, Option.map_map,
      Function.comp_def]
  | setAttr component name value =>
    simp only [act, Grpc.Component.setAttr]
    cases value.wrap np with
    | error x => rfl
    | ok v => simp only [Client.setAttr, hcall, Option.map_map, Function.comp_def]

/-- The definition of a simulation has its entities, its components and its functions. -/
theorem Sim.build_eq_ok {sim : Sim Fn} {d : SimulationDef} (h : sim.build compile true = .ok d) :
    d.name = sim.name ∧ d.entities = sim.entityDefs ∧ d.components = sim.componentDefs ∧
      sim.systemDefs compile = .ok d.systems ∧ sim.initGraph compile = .ok d.initGraph := by
  simp only [build, if_true] at h
  cases hs : sim.systemDefs compile with
  | error x =>
    rw [hs] at h
    cases h
  | ok systems =>
    rw [hs] at h
    cases hi : sim.initGraph compile with
    | error x =>
      rw [hi] at h
      cases h
    | ok initGraph =>
      rw [hi] at h
      cases h
      exact ⟨rfl, rfl, rfl, rfl, rfl⟩

end

/-- All identifiers of entities are set, so that the engine keeps them. -/
def Numbered (entities : List EntityDef) : Prop :=
  setEntityIdsFrom (EntityIndex.maxId (configuredIds entities) + 1) entities = entities

/-- What the engine has registered under the name of a simulation. -/
structure Local.Registered {Fn : Type} (l : Local Fn) (reg : Bentobox.Simulation AttributeMap) :
    Prop where
  entities : reg.simDef.entities = l.sim.entityDefs
  components : reg.simDef.components = l.sim.componentDefs
  systems : l.sim.started = true → reg.simDef.systems = l.systems
  unlocked : l.sim.started = false → reg.locked = false

/-- The engine has what the local simulation has. -/
structure Local.Shown {Fn : Type} (l : Local Fn) (e : Engine AttributeMap) : Prop where
  gen : e.gen = l.gen
  store : (e.sims.get? l.sim.name).map Bentobox.Simulation.store = l.store
  present : l.sim.started = true → l.store.isSome = true
  numbered : Numbered l.sim.entityDefs
  registered : ∀ reg, e.sims.get? l.sim.name = some reg → l.Registered reg

namespace Local
variable {F : FloatOps} {np : Numpy} {Fn E β : Type}
  {compile : Fn → List EntityDef → List ComponentDef → Except E Graph}

/-- What a run leaves in the engine is what it leaves of the local simulation. -/
theorem shown_register {l : Local Fn} (hnum : Numbered l.sim.entityDefs)
    {reg : Bentobox.Simulation AttributeMap} (hreg : l.Registered reg) (e : Engine AttributeMap)
    (s : Env AttributeMap) :
    Shown { l with store := some s.store, gen := s.gen } (e.register l.sim.name reg s) := by
  refine ⟨rfl, ?_, fun _ => rfl, hnum, fun reg' hget => ?_⟩
  · simp only [Engine.register, OrderedDict.get?_insert_self, Option.map_some]
  · simp only [Engine.register, OrderedDict.get?_insert_self] at hget
    cases hget
    exact ⟨hreg.entities, hreg.components, hreg.systems, hreg.unlocked⟩

/-- A simulation that has attributes is registered with them. -/
theorem Shown.get? {l : Local Fn} {e : Engine AttributeMap} (h : l.Shown e) {map : AttributeMap}
    (hmap : l.store = some map) :
    ∃ reg, e.sims.get? l.sim.name = some reg ∧ reg.store = map ∧ l.Registered reg := by
  obtain ⟨reg, hget, hstore⟩ := Option.map_eq_some_iff.mp (h.store.trans hmap)
  exact ⟨reg, hget, hstore, h.registered reg hget⟩

theorem Shown.absent {l : Local Fn} {e : Engine AttributeMap} (h : l.Shown e)
    (hmap : l.store = none) : e.sims.get? l.sim.name = none :=
  Option.map_eq_none_iff.mp (h.store.trans hmap)

/-- A run on the registered simulation is one on the local simulation. -/
theorem Shown.run {l : Local Fn} {e e' : Engine AttributeMap} (h : l.Shown e)
    {reg : Bentobox.Simulation AttributeMap} (hreg : l.Registered reg)
    (hstore : l.store = some reg.store) {ρ : Type} {m : Eval AttributeMap β} {onReturn : β → ρ}
    {onCatch : Exception → ρ} {o : ρ}
    (hcall : outcome onReturn onCatch (fun s => e.register l.sim.name reg s)
      (m ⟨reg.store, e.gen⟩) = some (o, e')) {k : ρ → Result E} {onReturn' : β → Result E}
    {onCatch' : Exception → NativeError} (hreturn : ∀ b, onReturn' b = k (onReturn b))
    (hcatch : ∀ x, .error (.native (onCatch' x)) = k (onCatch x)) :
    ∃ l', l.run m onReturn' onCatch' = some (k o, l') ∧ l'.Shown e' ∧ l'.sim = l.sim := by
  obtain ⟨s, rfl, hrun⟩ := outcome_simulated hcall hreturn hcatch
    fun s => { l with store := some s.store, gen := s.gen }
  refine ⟨_, ?_, shown_register h.numbered hreg e s, rfl⟩
  rw [h.gen] at hrun
  rw [Local.run, hstore]
  exact hrun

/-- What `k` makes of a call that ran on the registered simulation. -/
theorem Shown.call {l : Local Fn} {e e' : Engine AttributeMap} (h : l.Shown e)
    {reg : Bentobox.Simulation AttributeMap} (hreg : l.Registered reg)
    (hstore : l.store = some reg.store) {ρ : Type} {m : Eval AttributeMap β} {onReturn : β → ρ}
    {onCatch : Exception → ρ} {call : Option (ρ × Engine AttributeMap)}
    (hcall : call = outcome onReturn onCatch (fun s => e.register l.sim.name reg s)
      (m ⟨reg.store, e.gen⟩)) {k : ρ → Result E} {sim : Sim Fn} {r : Result E} {sim' : Sim Fn}
    (hr : call.map (fun p => (k p.1, sim, p.2)) = some (r, sim', e')) (hsim : sim = l.sim)
    {onReturn' : β → Result E} {onCatch' : Exception → NativeError}
    (hreturn : ∀ b, onReturn' b = k (onReturn b))
    (hcatch : ∀ x, .error (.native (onCatch' x)) = k (onCatch x)) :
    ∃ l', l.run m onReturn' onCatch' = some (r, l') ∧ l'.Shown e' ∧ l'.sim = sim' := by
  obtain ⟨⟨o, e₁⟩, hout, heq⟩ := Option.map_eq_some_iff.mp hr
  cases heq
  subst hsim
  exact h.run hreg hstore (hcall.symm.trans hout) hreturn hcatch

/-- **What is done to a simulation on the engine** is done to the local one, with the same
result. -/
theorem Shown.act {l : Local Fn} {e e' : Engine AttributeMap} (h : l.Shown e) {a : Act Fn}
    (ha : (Turn.act a).Fits l.sim.name) {r : Result E} {sim' : Sim Fn}
    (hr : l.sim.act F np compile e a = some (r, sim', e')) :
    ∃ l', l.act F np compile a = some (r, l') ∧ l'.Shown e' ∧ l'.sim = sim' := by
  cases a with
  | start =>
    simp only [Sim.act, Sim.start] at hr
    simp only [Local.act, Local.start]
    split_ifs at hr ⊢ with hstarted
    · cases hr
      exact ⟨l, rfl, h, rfl⟩
    · cases hbuild : l.sim.build compile true with
      | error x =>
        rw [hbuild] at hr
        cases hr
        exact ⟨l, rfl, h, rfl⟩
      | ok d =>
        obtain ⟨hname, hentities, hcomponents, -⟩ := Sim.build_eq_ok hbuild
        obtain ⟨stores, hc, -⟩ := construct_spec d
        have hcon := construct_view hc
        have hlock : ((e.sims.get? d.name).map Bentobox.Simulation.locked).getD false = false := by
          rw [hname]
          cases hget : e.sims.get? l.sim.name with
          | none => rfl
          | some reg => exact (h.registered reg hget).unlocked (Bool.eq_false_iff.mpr hstarted)
        have hcall : Client.applySim F d e = outcome (fun _ => .ok d.withIds)
            (fun x => .error (.runtimeError (formatError
              "Something went wrong while running the initGraph of the simulation" x)))
            (fun s => e.register d.name ⟨d.withIds, stores.view, false⟩ s)
            (runGraph F d.withIds.initGraph ⟨stores.view, e.gen⟩) :=
          Client.applySim_eq hlock hcon
        simp only [hbuild, hcall, hname, h.gen] at hr
        simp only [hcon, Local.run]
        have hkept : d.withIds.entities = l.sim.entityDefs := by
          rw [SimulationDef.withIds, hentities]
          exact h.numbered
        generalize runGraph F d.withIds.initGraph ⟨stores.view, l.gen⟩ = out at hr ⊢
        rcases out with ⟨(x | _) | _, s⟩
        · cases hr
          refine ⟨_, rfl, shown_register (l := { l with systems := d.withIds.systems }) h.numbered
            ⟨hkept, hcomponents, fun _ => rfl, fun _ => rfl⟩ e s, rfl⟩
        · cases hr
        · cases hr
          exact ⟨_, rfl, shown_register
            (l := ⟨l.sim.committed d.withIds, d.withIds.systems, l.store, l.gen⟩) h.numbered
            ⟨hkept, hcomponents, fun _ => rfl, fun _ => rfl⟩ e s, rfl⟩
  | stop =>
    simp only [Sim.act, Sim.stop] at hr
    simp only [Local.act, Local.stop]
    split_ifs at hr ⊢ with hstarted
    · obtain ⟨map, hmap⟩ := Option.isSome_iff_exists.mp (h.present hstarted)
      obtain ⟨reg, hget, -, -⟩ := h.get? hmap
      have hcall : Client.removeSim F l.sim.name e =
          some (.ok (), { e with sims := e.sims.erase l.sim.name }) := by
        simp only [Client.removeSim, Client.call, Engine.step, Engine.dropSimulation, hget]
        rfl
      rw [hcall] at hr
      cases hr
      refine ⟨_, rfl, ⟨h.gen, by simp, fun hs => (by cases hs), h.numbered, fun reg hreg => ?_⟩,
        rfl⟩
      simp at hreg
    · cases hr
      exact ⟨l, rfl, h, rfl⟩
  | step =>
    simp only [Sim.act, Sim.step] at hr
    simp only [Local.act, Local.step]
    split_ifs at hr ⊢ with hstarted
    · obtain ⟨map, hmap⟩ := Option.isSome_iff_exists.mp (h.present hstarted)
      obtain ⟨reg, hget, rfl, hreg⟩ := h.get? hmap
      rw [← hreg.systems hstarted]
      have hstep : Engine.step F e (.stepSimulation l.sim.name) = Engine.answer (fun _ => .empty)
          (fun x => .error .internal x.what) (Engine.runOn (Engine.runSystems F reg.simDef.systems)
            l.sim.name { reg with locked := true } e) := by
        simp only [Engine.step, Engine.stepSimulation, hget]
      have hret : ∀ _ : Unit, Client.unpackEmpty .empty = some () := fun _ => rfl
      have hreg' : l.Registered { reg with locked := true } :=
        ⟨hreg.entities, hreg.components, hreg.systems, fun hs => by simp [hs] at hstarted⟩
      exact h.call (k := returnNone) hreg' hmap
        (Client.call_runOn hstep hret fun _ => rfl) hr rfl (fun _ => rfl) fun _ => rfl
    · cases hr
      exact ⟨l, rfl, h, rfl⟩
  | init initFn =>
    cases hr
    exact ⟨_, rfl, ⟨h.gen, h.store, h.present, h.numbered, fun reg hget =>
      ⟨(h.registered reg hget).entities, (h.registered reg hget).components,
        (h.registered reg hget).systems, (h.registered reg hget).unlocked⟩⟩, rfl⟩
  | system systemFn =>
    cases hr
    exact ⟨_, rfl, ⟨h.gen, h.store, h.present, h.numbered, fun reg hget =>
      ⟨(h.registered reg hget).entities, (h.registered reg hget).components,
        (h.registered reg hget).systems, (h.registered reg hget).unlocked⟩⟩, rfl⟩
  | getAttr component name =>
    have hname : component.simName = l.sim.name := ha
    simp only [Sim.act, Grpc.Component.getAttr, hname, Option.map_map] at hr
    simp only [Local.act, Local.getAttr]
    cases hmap : l.store with
    | none =>
      have hcall : Client.getAttr F l.sim.name (component.attrRef name) e =
          some (.error (.lookupError "Could not find simulation with that name."), e) := by
        simp only [Client.getAttr, Client.call, Engine.step, Engine.getAttribute, h.absent hmap]
        rfl
      rw [hcall] at hr
      cases hr
      exact ⟨l, by rw [Local.run, hmap]; rfl, h, rfl⟩
    | some map =>
      obtain ⟨reg, hget, rfl, hreg⟩ := h.get? hmap
      have hstep : Engine.step F e (.getAttribute l.sim.name (component.attrRef name)) =
          Engine.answer .value (fun x => .error .notFound (formatError
            "RetrieveOp failed when retrieving requested attribute." x))
            (Engine.runOn (onStore (retrieve (component.attrRef name))) l.sim.name reg e) := by
        simp only [Engine.step, Engine.getAttribute, hget]
      have hret : ∀ v, Client.unpackValue (.value v) = some v := fun _ => rfl
      exact h.call (k := Grpc.Component.unwrapped F np) hreg hmap
        (Client.call_runOn hstep hret fun _ => rfl) hr rfl (fun _ => rfl) fun _ => rfl
  | setAttr component name value =>
    have hname : component.simName = l.sim.name := ha
    simp only [Sim.act, Grpc.Component.setAttr, hname] at hr
    simp only [Local.act, Local.setAttr]
    cases hwrap : value.wrap np with
    | error x =>
      rw [hwrap] at hr
      cases hr
      exact ⟨l, rfl, h, rfl⟩
    | ok v =>
      simp only [hwrap, Option.map_map] at hr
      cases hmap : l.store with
      | none =>
        have hcall : Client.setAttr F l.sim.name (component.attrRef name) v e =
            some (.error (.lookupError "Could not find simulation with that name."), e) := by
          simp only [Client.setAttr, Client.call, Engine.step, Engine.setAttribute, h.absent hmap]
          rfl
        rw [hcall] at hr
        cases hr
        exact ⟨l, by simp only [Local.run, hmap]; rfl, h, rfl⟩
      | some map =>
        obtain ⟨reg, hget, rfl, hreg⟩ := h.get? hmap
        have hstep : Engine.step F e (.setAttribute l.sim.name (component.attrRef name) v) =
            Engine.answer (fun _ => .empty)
              (fun x => .error .internal (formatError "Setting attribute failed." x))
              (Engine.runOn (mutateOp F ⟨component.attrRef name, .const v⟩) l.sim.name reg e) := by
          simp only [Engine.step, Engine.setAttribute, hget]
        have hret : ∀ _ : Unit, Client.unpackEmpty .empty = some () := fun _ => rfl
        exact h.call (k := returnNone) hreg hmap (Client.call_runOn hstep hret fun _ => rfl) hr rfl
          (fun _ => rfl) fun _ => rfl

end Local
end Bentobox.Sdk
