import Bentobox.Lib.Machine
import Bentobox.Engine.Construction

/-!
# The engine service

The handlers of `EngineServiceImpl` as one step of a machine that answers
requests one after another. A handler that runs into undefined behaviour has no
answer and leaves no engine (`none`). The names of `ListSimulation` come in the order of the
registry here, which the source does not specify.

Like the interpreter, the service is stated for any store that can be constructed
from a definition; `Engine Stores` is the engine.
-/
namespace Bentobox

/-- Stores that a simulation can be built on. -/
class SimulationStore (S : Type) extends AttributeStore S where
  construct : SimulationDef → Except Fault (SimulationDef × S)

open AttributeStore SimulationStore

instance : SimulationStore Stores where
  construct := Stores.construct

theorem construct_stores {d : SimulationDef} {stores : Stores}
    (h : Stores.construct d = .ok (d.withIds, stores)) :
    SimulationStore.construct d = .ok (d.withIds, stores) := h

structure Simulation (S : Type) where
  simDef : SimulationDef
  store : S
  locked : Bool

/-- The registry of simulations, with the random generator they share. -/
structure Engine (S : Type) where
  sims : OrderedDict String (Simulation S)
  gen : ℕ

inductive Request
  | applySimulation (simulation : SimulationDef)
  | getSimulation (name : String)
  | listSimulation
  | dropSimulation (name : String)
  | stepSimulation (name : String)
  | getAttribute (simName : String) (attr : AttributeRef)
  | setAttribute (simName : String) (attr : AttributeRef) (value : Value)
  deriving DecidableEq

/-- The status codes in use. -/
inductive StatusCode
  | notFound | alreadyExists | internal
  deriving DecidableEq, Repr

/-- A reply with the status OK, or an error status. -/
inductive Response
  | simulation (simDef : SimulationDef)
  | simNames (names : List String)
  | value (v : Value)
  | empty
  | error (code : StatusCode) (message : String)
  deriving DecidableEq

def Response.isError : Response → Bool
  | error _ _ => true
  | _ => false

def formatError (message : String) (e : Exception) : String := message ++ ": " ++ e.what

/-- Put the text in front of the message of an exception. -/
def Fault.describe (message : String) : Fault → Fault
  | exception e => exception ⟨e.kind, formatError message e⟩
  | undefined => undefined

/-- What `Could not find simulation with that name.` answers. -/
def simNotFound : Response := .error .notFound "Could not find simulation with that name."

namespace Engine
variable (F : FloatOps) {S : Type} {α : Type}

/-- A fresh engine; the generator starts in any state. -/
def new (gen : ℕ) : Engine S := ⟨∅, gen⟩

/-- Register a simulation with the store that a computation reached. -/
def register (e : Engine S) (name : String) (sim : Simulation S) (s : Env S) : Engine S :=
  ⟨e.sims.insert name { sim with store := s.store }, s.gen⟩

/-- Run on the store of a simulation and register the simulation. -/
def runOn (m : Eval S α) (name : String) (sim : Simulation S) (e : Engine S) :
    Except Fault α × Engine S :=
  ((m ⟨sim.store, e.gen⟩).1, e.register name sim (m ⟨sim.store, e.gen⟩).2)

/-- Answer what was returned or thrown; undefined behaviour has no answer. -/
def answer (onReturn : α → Response) (onCatch : Exception → Response)
    (r : Except Fault α × Engine S) : Option (Response × Engine S) :=
  match r.1 with
  | .ok a => some (onReturn a, r.2)
  | .error (.exception e) => some (onCatch e, r.2)
  | .error .undefined => none

omit F in
/-- The state after an answer is the one that the handler reached. -/
theorem answer_state {onReturn : α → Response} {onCatch : Exception → Response}
    {r : Except Fault α × Engine S} {o : Response} {e' : Engine S}
    (h : answer onReturn onCatch r = some (o, e')) : e' = r.2 := by
  rw [answer] at h
  split at h <;> cases h <;> rfl

/-- Run a system, naming it in the error. -/
def runSystem [AttributeStore S] (system : SystemDef) : Eval S Unit :=
  Fallible.mapFault (Fault.describe
    ("Something went wrong while running system with ID: " ++ toString system.id ++ "."))
    (runGraph F system.graph)

def runSystems [AttributeStore S] (systems : List SystemDef) : Eval S Unit :=
  Fallible.forEach (runSystem F) systems

variable [SimulationStore S]

/-- Put a new simulation into the registry and run its initial graph. -/
def createSimulation (name : String) (simDef : SimulationDef) (store : S) (e : Engine S) :
    Option (Response × Engine S) :=
  answer (fun _ => .simulation simDef)
    (fun x => .error .internal (formatError
      "Something went wrong while running the initGraph of the simulation" x))
    (runOn (runGraph F simDef.initGraph) name ⟨simDef, store, false⟩ e)

def applySimulation (simulation : SimulationDef) (e : Engine S) :
    Option (Response × Engine S) :=
  if ((e.sims.get? simulation.name).map Simulation.locked).getD false then
    some (.error .alreadyExists "The simulation has been created and stepped at least once.", e)
  else match construct simulation with
    | .ok (simDef, store) => createSimulation F simulation.name simDef store e
    | .error (.exception x) => some (.error .internal (formatError
        "Something went wrong while creating the simulation object" x), e)
    | .error .undefined => none

def getSimulation (name : String) (e : Engine S) : Option (Response × Engine S) :=
  match e.sims.get? name with
  | some sim => some (.simulation sim.simDef, e)
  | none => some (simNotFound, e)

def listSimulation (e : Engine S) : Option (Response × Engine S) :=
  some (.simNames e.sims.keys, e)

def dropSimulation (name : String) (e : Engine S) : Option (Response × Engine S) :=
  match e.sims.get? name with
  | some _ => some (.empty, { e with sims := e.sims.erase name })
  | none => some (simNotFound, e)

def stepSimulation (name : String) (e : Engine S) : Option (Response × Engine S) :=
  match e.sims.get? name with
  | some sim =>
    answer (fun _ => .empty) (fun x => .error .internal x.what)
      (runOn (runSystems F sim.simDef.systems) name { sim with locked := true } e)
  | none => some (simNotFound, e)

def getAttribute (simName : String) (attr : AttributeRef) (e : Engine S) :
    Option (Response × Engine S) :=
  match e.sims.get? simName with
  | some sim =>
    answer .value
      (fun x => .error .notFound (formatError
        "RetrieveOp failed when retrieving requested attribute." x))
      (runOn (onStore (retrieve attr)) simName sim e)
  | none => some (simNotFound, e)

def setAttribute (simName : String) (attr : AttributeRef) (value : Value) (e : Engine S) :
    Option (Response × Engine S) :=
  match e.sims.get? simName with
  | some sim =>
    answer (fun _ => .empty)
      (fun x => .error .internal (formatError "Setting attribute failed." x))
      (runOn (mutateOp F ⟨attr, .const value⟩) simName sim e)
  | none => some (simNotFound, e)

/-- Answer a request. -/
def step (e : Engine S) : Request → Option (Response × Engine S)
  | .applySimulation d => applySimulation F d e
  | .getSimulation name => getSimulation name e
  | .listSimulation => listSimulation e
  | .dropSimulation name => dropSimulation name e
  | .stepSimulation name => stepSimulation F name e
  | .getAttribute simName attr => getAttribute simName attr e
  | .setAttribute simName attr value => setAttribute F simName attr value e

/-- There is nothing to do: the simulation is not there, or it is locked against an application, or
it cannot be built. -/
def Idle (e : Engine S) : Request → Prop
  | .applySimulation d => ((e.sims.get? d.name).map Simulation.locked).getD false ∨
      ∃ x, (construct d : Except Fault (SimulationDef × S)) = .error x
  | .getSimulation _ | .listSimulation => True
  | .dropSimulation name | .stepSimulation name | .getAttribute name _
  | .setAttribute name _ _ => e.sims.get? name = none

/-- What a request that is answered makes of the engine. -/
inductive Transition (e : Engine S) : Request → Engine S → Prop
  | idle {r : Request} (h : e.Idle r) : Transition e r e
  | created {d simDef : SimulationDef} {store : S}
    (hlock : ¬ ((e.sims.get? d.name).map Simulation.locked).getD false)
    (hc : construct d = .ok (simDef, store)) : Transition e (.applySimulation d)
      (runOn (runGraph F simDef.initGraph) d.name ⟨simDef, store, false⟩ e).2
  | dropped {name : String} {sim : Simulation S} (hs : e.sims.get? name = some sim) :
    Transition e (.dropSimulation name) { e with sims := e.sims.erase name }
  | stepped {name : String} {sim : Simulation S} (hs : e.sims.get? name = some sim) :
    Transition e (.stepSimulation name)
      (runOn (runSystems F sim.simDef.systems) name { sim with locked := true } e).2
  | retrieved {name : String} {attr : AttributeRef} {sim : Simulation S}
    (hs : e.sims.get? name = some sim) : Transition e (.getAttribute name attr)
      (runOn (onStore (retrieve attr)) name sim e).2
  | assigned {name : String} {attr : AttributeRef} {value : Value} {sim : Simulation S}
    (hs : e.sims.get? name = some sim) : Transition e (.setAttribute name attr value)
      (runOn (mutateOp F ⟨attr, .const value⟩) name sim e).2

/-- **Every answer comes with one of these transitions.** -/
theorem step_transition {e e' : Engine S} {r : Request} {o : Response}
    (h : step F e r = some (o, e')) : Transition F e r e' := by
  cases r with
  | applySimulation d =>
    simp only [step, applySimulation] at h
    split_ifs at h with hlock
    · cases h
      exact .idle (.inl hlock)
    · cases hc : (construct d : Except Fault (SimulationDef × S)) with
      | ok p =>
        simp only [hc, createSimulation] at h
        rw [answer_state h]
        exact .created hlock hc
      | error x =>
        cases x with
        | exception x =>
          simp only [hc] at h
          cases h
          exact .idle (.inr ⟨_, hc⟩)
        | undefined =>
          simp only [hc] at h
          cases h
  | getSimulation name =>
    simp only [step, getSimulation] at h
    split at h <;> cases h <;> exact .idle trivial
  | listSimulation =>
    cases h
    exact .idle trivial
  | dropSimulation name =>
    simp only [step, dropSimulation] at h
    split at h
    next sim hs =>
      cases h
      exact .dropped hs
    next hs =>
      cases h
      exact .idle hs
  | stepSimulation name =>
    simp only [step, stepSimulation] at h
    split at h
    next sim hs =>
      rw [answer_state h]
      exact .stepped hs
    next hs =>
      cases h
      exact .idle hs
  | getAttribute name attr =>
    simp only [step, getAttribute] at h
    split at h
    next sim hs =>
      rw [answer_state h]
      exact .retrieved hs
    next hs =>
      cases h
      exact .idle hs
  | setAttribute name attr value =>
    simp only [step, setAttribute] at h
    split at h
    next sim hs =>
      rw [answer_state h]
      exact .assigned hs
    next hs =>
      cases h
      exact .idle hs

/-- Answer requests one after another. -/
def run (e : Engine S) (requests : List Request) : Option (List Response × Engine S) :=
  Machine.run (step F) e requests

/-- The states an engine can come to. -/
def Reachable (e : Engine S) : Prop :=
  ∃ gen requests responses, run F (new gen) requests = some (responses, e)

end Engine

end Bentobox
