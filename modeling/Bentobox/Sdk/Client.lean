import Bentobox.Sdk.RoundTrip
import Bentobox.Sdk.Simulations

/-!
# The client of the engine

The methods of `Client`, and the attributes of a gRPC component, which are read and written
through it. The connection does not fail; an engine that crashes leaves no result.
-/
namespace Bentobox.Sdk

open AttributeStore SimulationStore

/-- The status codes of gRPC. -/
inductive RpcStatus
  | ok | cancelled | unknown | invalidArgument | deadlineExceeded | notFound | alreadyExists
  | permissionDenied | resourceExhausted | failedPrecondition | aborted | outOfRange
  | unimplemented | internal | unavailable | dataLoss | unauthenticated
  deriving DecidableEq, Repr

def RpcStatus.ofCode : StatusCode → RpcStatus
  | .notFound => notFound
  | .alreadyExists => alreadyExists
  | .internal => internal

/-- The exceptions of Python that a status is raised as. -/
inductive NativeError
  | timeoutError (details : String)
  | notImplementedError (details : String)
  | valueError (details : String)
  | lookupError (details : String)
  | fileExistsError (details : String)
  | runtimeError (details : String)
  deriving DecidableEq, Repr

/-- `raise_native` -/
def raiseNative (status : RpcStatus) (details : String) : NativeError :=
  match status with
  | .deadlineExceeded => .timeoutError details
  | .unimplemented => .notImplementedError details
  | .invalidArgument => .valueError details
  | .notFound => .lookupError details
  | .alreadyExists => .fileExistsError details
  | _ => .runtimeError details

/-- What a run returns or raises, and what it leaves; undefined behaviour leaves nothing. -/
def outcome {S β ρ σ : Type} (onReturn : β → ρ) (onCatch : Exception → ρ) (leave : Env S → σ) :
    Except Fault β × Env S → Option (ρ × σ)
  | (.ok b, s) => some (onReturn b, leave s)
  | (.error (.exception x), s) => some (onCatch x, leave s)
  | (.error .undefined, _) => none

/-- What returns and raises accordingly comes of the same run. -/
theorem outcome_simulated {S β ρ ρ' σ σ' : Type} {onReturn : β → ρ} {onCatch : Exception → ρ}
    {leave : Env S → σ} {r : Except Fault β × Env S} {o : ρ} {t : σ}
    (h : outcome onReturn onCatch leave r = some (o, t)) {k : ρ → ρ'} {onReturn' : β → ρ'}
    {onCatch' : Exception → ρ'} (hreturn : ∀ b, onReturn' b = k (onReturn b))
    (hcatch : ∀ x, onCatch' x = k (onCatch x)) (leave' : Env S → σ') :
    ∃ s, t = leave s ∧ outcome onReturn' onCatch' leave' r = some (k o, leave' s) := by
  rcases r with ⟨(x | _) | b, s⟩
  · cases h
    exact ⟨s, rfl, by rw [outcome, hcatch]⟩
  · cases h
  · cases h
    exact ⟨s, rfl, by rw [outcome, hreturn]⟩

/-- A call returns or raises, and leaves the engine; a crash leaves nothing. -/
abbrev ClientCall (S ε α : Type) : Type := Engine S → Option (Except ε α × Engine S)

namespace Client
variable (F : FloatOps) {S : Type} [SimulationStore S] {α : Type}

omit [SimulationStore S] in
/-- What the method takes from the response, or the error it raises. -/
def receive (unpack : Response → Option α) : Response × Engine S →
    Option (Except NativeError α × Engine S)
  | (.error code details, e) => some (.error (raiseNative (.ofCode code) details), e)
  | (response, e) => (unpack response).map fun a => (.ok a, e)

/-- Call the engine. -/
def call (unpack : Response → Option α) (r : Request) : ClientCall S NativeError α := fun e =>
  (Engine.step F e r).bind (receive unpack)

/-- `response.simulation` -/
def unpackSimulation : Response → Option SimulationDef
  | .simulation d => some d
  | _ => none

/-- `response.value` -/
def unpackValue : Response → Option Value
  | .value v => some v
  | _ => none

def unpackEmpty : Response → Option Unit
  | .empty => some ()
  | _ => none

def applySim (simulation : SimulationDef) : ClientCall S NativeError SimulationDef :=
  call F unpackSimulation (.applySimulation simulation)

def removeSim (name : String) : ClientCall S NativeError Unit :=
  call F unpackEmpty (.dropSimulation name)

def stepSim (name : String) : ClientCall S NativeError Unit :=
  call F unpackEmpty (.stepSimulation name)

def getAttr (simName : String) (attrRef : AttributeRef) : ClientCall S NativeError Value :=
  call F unpackValue (.getAttribute simName attrRef)

def setAttr (simName : String) (attrRef : AttributeRef) (value : Value) :
    ClientCall S NativeError Unit :=
  call F unpackEmpty (.setAttribute simName attrRef value)

variable {F}

omit [SimulationStore S] in
theorem receive_of_unpack {unpack : Response → Option α} {o : Response} {a : α} {e : Engine S}
    (h : unpack o = some a) (ho : o.isError = false) : receive unpack (o, e) = some (.ok a, e) := by
  cases o with
  | error code details => cases ho
  | _ => simp only [receive, h, Option.map_some]

/-- A call makes of the engine what the request makes of it. -/
theorem step_of_call {unpack : Response → Option α} {r : Request} {e e' : Engine S}
    {res : Except NativeError α} (h : call F unpack r e = some (res, e')) :
    ∃ o, Engine.step F e r = some (o, e') := by
  obtain ⟨⟨o, e₁⟩, hstep, h⟩ := Option.bind_eq_some_iff.mp h
  refine ⟨o, ?_⟩
  cases o with
  | error code details =>
    cases h
    exact hstep
  | _ =>
    obtain ⟨a, -, heq⟩ := Option.map_eq_some_iff.mp h
    cases heq
    exact hstep

/-- A call through a refinement of the engine's state. -/
theorem call_map {T : Type} [SimulationStore T] {unpack : Response → Option α} {r : Request}
    {e : Engine S} {view : Engine S → Engine T}
    (h : Engine.step F (view e) r = (Engine.step F e r).map fun p => (p.1, view p.2)) :
    call F unpack r (view e) = (call F unpack r e).map fun p => (p.1, view p.2) := by
  rw [call, call, h]
  rcases Engine.step F e r with _ | ⟨o, e'⟩
  · rfl
  · cases o with
    | error code details => rfl
    | _ =>
      simp only [Option.map_some, Option.bind_some, receive, Option.map_map, Function.comp_def]

/-- A call that runs on a simulation returns or raises what comes of the run. -/
theorem call_runOn {β : Type} {unpack : Response → Option α} {r : Request} {e : Engine S}
    {m : Eval S β} {name : String} {sim : Bentobox.Simulation S} {onReturn : β → Response}
    {code : StatusCode} {text : Exception → String}
    (hstep : Engine.step F e r = Engine.answer onReturn (fun x => .error code (text x))
      (Engine.runOn m name sim e)) {ret : β → α} (hret : ∀ b, unpack (onReturn b) = some (ret b))
    (hok : ∀ b, (onReturn b).isError = false) :
    call F unpack r e = outcome (fun b => .ok (ret b))
      (fun x => .error (raiseNative (.ofCode code) (text x))) (fun s => e.register name sim s)
      (m ⟨sim.store, e.gen⟩) := by
  rw [call, hstep, Engine.answer, Engine.runOn]
  rcases m ⟨sim.store, e.gen⟩ with ⟨(x | _) | b, s⟩
  · rfl
  · rfl
  · exact receive_of_unpack (hret b) (hok b)

end Client

/-! ## The attributes of a component -/

/-- What the SDK raises: a native exception, one of `wrap` or `unwrap`, or one of the compiler. -/
inductive SimError (E : Type)
  | native (x : NativeError)
  | value (x : PythonError)
  | compile (x : E)
  deriving DecidableEq

/-- The call returns nothing. -/
def returnNone {E : Type} : Except NativeError Unit → Except (SimError E) (Option PyValue)
  | .ok _ => .ok none
  | .error x => .error (.native x)

namespace Grpc.Component
variable (F : FloatOps) (np : Numpy) {S : Type} [SimulationStore S] {E : Type}

def attrRef (c : Component) (name : String) : AttributeRef := ⟨c.entityId, c.name, name⟩

/-- `return unwrap(value)` -/
def unwrapped : Except NativeError Value → Except (SimError E) (Option PyValue)
  | .ok value => (unwrap F np value).mapError .value
  | .error x => .error (.native x)

/-- `get_attr` -/
def getAttr (c : Component) (name : String) : ClientCall S (SimError E) (Option PyValue) := fun e =>
  (Client.getAttr F c.simName (c.attrRef name) e).map fun p => (unwrapped F np p.1, p.2)

/-- `set_attr` -/
def setAttr (c : Component) (name : String) (value : PyValue) :
    ClientCall S (SimError E) (Option PyValue) := fun e =>
  match value.wrap np with
  | .error x => some (.error (.value x), e)
  | .ok v => (Client.setAttr F c.simName (c.attrRef name) v e).map fun p => (returnNone p.1, p.2)

end Grpc.Component
end Bentobox.Sdk
