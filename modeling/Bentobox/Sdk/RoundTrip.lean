import Mathlib.Algebra.Group.Nat.Defs
import Mathlib.Data.List.DropRight
import Bentobox.Engine.Conformity
import Bentobox.Sdk.GraphNode

/-!
# Native values through the engine

`wrap` and `unwrap` of `value.py`, and the way of a value through `SetAttribute` and
`GetAttribute`. The numpy functions they call are the parameter `Numpy`. A scalar comes back as
it was; an array is refused by `valHasCorrectDataType` before `setValue` looks at the schema.
-/
namespace Bentobox

open AttributeStore SimulationStore

namespace Sdk

/-! ## Native values -/

/-- The numpy scalars that `wrap_primitive` knows. -/
inductive NumpyScalar
  | int32 (val : BitVec 32)
  | int64 (val : BitVec 64)
  | float64 (val : BitVec 64)
  | str (val : String)
  | bool (val : Bool)
  deriving DecidableEq, Repr

/-- A scalar of Python or of numpy. -/
inductive PyScalar
  | native (val : Native)
  | numpy (val : NumpyScalar)
  deriving DecidableEq, Repr

/-- A rectangular collection: nested lists, a generator or a numpy array, row by row. -/
structure Collection where
  shape : List ℕ
  elements : List PyScalar
  rectangular : elements.length = shape.prod

inductive PyValue
  | scalar (val : PyScalar)
  | collection (val : Collection)

/-- The Python value that a numpy scalar is equal to. -/
def NumpyScalar.item : NumpyScalar → Native
  | int32 val => .int val.toInt
  | int64 val => .int val.toInt
  | float64 val => .float val
  | str val => .str val
  | bool val => .bool val

def PyScalar.item : PyScalar → Native
  | native val => val
  | numpy val => val.item

/-- Equal values; collections have the same shape and the same elements. -/
def PyValue.Equal : PyValue → PyValue → Prop
  | scalar x, scalar y => x.item = y.item
  | collection c, collection d =>
    c.shape = d.shape ∧ c.elements.map PyScalar.item = d.elements.map PyScalar.item
  | _, _ => False

def PyValue.isScalar : PyValue → Bool
  | scalar _ => true
  | collection _ => false

/-- The numpy functions in use. -/
structure Numpy where
  /-- The elements of `np.asarray(val).flatten()`, when `wrap_primitive` knows their types. -/
  asarray : Collection → Option (List PyScalar)
  /-- `np.asarray(native_vals).reshape(dimensions)`, on values among which `none` is `None`. -/
  reshape : List (Option Native) → List ℤ → Except PythonError Collection

/-! ## Wrapping -/

/-- The value that a numpy scalar is wrapped as. -/
def NumpyScalar.scalar : NumpyScalar → Scalar
  | int32 val => .number (.int32 val)
  | int64 val => .number (.int64 val)
  | float64 val => .number (.float64 val)
  | str val => .str val
  | bool val => .bool val

/-- `wrap_primitive` on the scalars of numpy too. -/
def PyScalar.wrap : PyScalar → Except PythonError Value
  | native val => wrapPrimitive val
  | numpy val => .ok (setVal val.scalar)

/-- `wrap` on a collection; the type of the elements is that of the first one. -/
def Collection.wrap (np : Numpy) (c : Collection) : Except PythonError Value :=
  match np.asarray c with
  | none => .error .typeError
  | some vals => do
    let primitives ← vals.mapM PyScalar.wrap
    match primitives.head? with
    | none => .error .indexError
    | some p =>
      .ok ⟨some (.array ⟨c.shape.map Int.ofNat, (p.dataType.getD .notSet).getPrimitive⟩),
        .array (primitives.map Value.getPrimitive)⟩

/-- `wrap`; a message, which it returns as it is, is no native value. -/
def PyValue.wrap (np : Numpy) : PyValue → Except PythonError Value
  | scalar x => x.wrap
  | collection c => c.wrap np

/-! ## Unwrapping -/

end Sdk

namespace Primitive

/-! The fields of a primitive, the protobuf default where another one is set. -/

def getInt8 : Primitive → BitVec 32
  | int8 v => v
  | _ => 0

def getInt32 : Primitive → BitVec 32
  | int32 v => v
  | _ => 0

def getInt64 : Primitive → BitVec 64
  | int64 v => v
  | _ => 0

def getFloat32 : Primitive → BitVec 32
  | float32 v => v
  | _ => 0

def getFloat64 : Primitive → BitVec 64
  | float64 v => v
  | _ => 0

def getBoolean : Primitive → Bool
  | boolean b => b
  | _ => false

def getStrVal : Primitive → String
  | strVal s => s
  | _ => ""

end Primitive

/-- The elements of the array, none when another member is set. -/
def Value.getArray (v : Value) : List Primitive :=
  match v.kind with
  | .array values => values
  | _ => []

namespace Sdk
variable (F : FloatOps) (np : Numpy)

/-- `unwrap_primitive`; on a type without a name it falls off its end and returns `None`. -/
def unwrapPrimitive (value : Value) : Except PythonError (Option Native) :=
  match value.dataType.getD .notSet with
  | .primitive .byte => .ok (some (.int value.getPrimitive.getInt8.toInt))
  | .primitive .int32 => .ok (some (.int value.getPrimitive.getInt32.toInt))
  | .primitive .int64 => .ok (some (.int value.getPrimitive.getInt64.toInt))
  | .primitive .float32 => .ok (some (.float (F.widen value.getPrimitive.getFloat32)))
  | .primitive .float64 => .ok (some (.float value.getPrimitive.getFloat64))
  | .primitive .bool => .ok (some (.bool value.getPrimitive.getBoolean))
  | .primitive .string => .ok (some (.str value.getPrimitive.getStrVal))
  | .primitive .invalid => .error .valueError
  | .primitive (.unrecognized _) => .ok none
  | _ => .error .typeError

/-- `unwrap` -/
def unwrap (value : Value) : Except PythonError (Option PyValue) :=
  match value.dataType.getD .notSet with
  | .primitive _ =>
    (Option.map fun val => .scalar (.native val)) <$> unwrapPrimitive F value
  | .array type => do
    let nativeVals ← value.getArray.mapM fun v =>
      unwrapPrimitive F ⟨some (.primitive type.elementType), .primitive v⟩
    (fun c => some (.collection c)) <$> np.reshape nativeVals type.dimensions
  | .notSet => .error .typeError

theorem unwrapPrimitive_setVal (s : NumpyScalar) :
    unwrapPrimitive F (setVal s.scalar) = .ok (some s.item) := by
  cases s <;> rfl

/-- A scalar is wrapped as a native value of the engine, which unwraps to it. -/
theorem PyScalar.wrap_eq_ok {x : PyScalar} {w : Value} (h : x.wrap = .ok w) :
    ∃ s, w = setVal s ∧ unwrapPrimitive F w = .ok (some x.item) := by
  cases x with
  | numpy val => cases h; exact ⟨val.scalar, rfl, unwrapPrimitive_setVal F val⟩
  | native val =>
    cases val with
    | int val =>
      simp only [wrap, wrapPrimitive] at h
      split_ifs at h with h32 h64
      · cases h
        refine ⟨_, rfl, (unwrapPrimitive_setVal F (.int32 _)).trans ?_⟩
        rw [NumpyScalar.item, toInt_ofInt_of_inRange (by decide) h32, item]
      · cases h
        refine ⟨_, rfl, (unwrapPrimitive_setVal F (.int64 _)).trans ?_⟩
        rw [NumpyScalar.item, toInt_ofInt_of_inRange (by decide) h64, item]
    | float val => cases h; exact ⟨_, rfl, rfl⟩
    | str val => cases h; exact ⟨_, rfl, rfl⟩
    | bool val => cases h; exact ⟨_, rfl, rfl⟩

variable {np} in
/-- A collection is wrapped as a value with the type of an array. -/
theorem Collection.wrap_eq_ok {c : Collection} {w : Value} (h : c.wrap np = .ok w) :
    ∃ vals primitives p, np.asarray c = some vals ∧
      List.Forall₂ (fun x p => PyScalar.wrap x = .ok p) vals primitives ∧
      primitives.head? = some p ∧
      w = ⟨some (.array ⟨c.shape.map Int.ofNat, (p.dataType.getD .notSet).getPrimitive⟩),
        .array (primitives.map Value.getPrimitive)⟩ := by
  rw [wrap] at h
  cases ha : np.asarray c with
  | none => rw [ha] at h; cases h
  | some vals =>
    rw [ha] at h
    obtain ⟨primitives, hprimitives, h⟩ := Fallible.result_bind_eq_ok_iff.mp h
    cases hp : primitives.head? with
    | none => rw [hp] at h; cases h
    | some p =>
      rw [hp] at h
      cases h
      exact ⟨vals, primitives, p, rfl, Fallible.mapM_eq_ok hprimitives, hp, rfl⟩

/-- A wrapped scalar unwraps to the value that it had. -/
theorem unwrap_wrap_scalar {x : PyScalar} {w : Value} (h : x.wrap = .ok w) :
    unwrap F np w = .ok (some (.scalar (.native x.item))) := by
  obtain ⟨s, rfl, hunwrap⟩ := PyScalar.wrap_eq_ok F h
  change (Option.map fun val => PyValue.scalar (.native val)) <$> unwrapPrimitive F (setVal s) = _
  rw [hunwrap]
  rfl

/-! ## The way through the engine -/

/-- The native values of the engine are kept by an attribute of their own type. -/
theorem storedValue_setVal {cd : ComponentDef} {a : String} {s : Scalar}
    (ht : cd.schema.get? a = (setVal s).dataType) :
    UserComponent.storedValue F cd a (setVal s) = .ok (setVal s) := by
  have hc : UserComponent.checkValue cd a (setVal s) = .ok (.primitive s.type) :=
    UserComponent.checkValue_eq_ok_iff.mpr ⟨ht, s, rfl⟩
  rw [UserComponent.storedValue, hc, Fallible.ok_bind]
  rcases s with n | s | b
  · cases n <;> rfl
  · rfl
  · rfl

end Sdk

namespace Engine
variable {F : FloatOps} {e : Engine AttributeMap} {name : String}
  {sim : Simulation AttributeMap} {ref : AttributeRef} {v : Value}

/-- On maps, `SetAttribute` replies OK when the attribute accepts the value. -/
theorem setAttribute_eq_empty_iff (hs : e.sims.get? name = some sim) {e' : Engine AttributeMap} :
    Engine.step F e (.setAttribute name ref v) = some (.empty, e') ↔
      ∃ w, sim.store.converted F ref v = .ok w ∧
        e' = e.register name sim ⟨sim.store.set ref w, e.gen⟩ := by
  have hm : mutateOp F ⟨ref, .const v⟩ (⟨sim.store, e.gen⟩ : Env AttributeMap) =
      onStore (assign F ref v) ⟨sim.store, e.gen⟩ := rfl
  rw [AttributeMap.onStore_assign] at hm
  simp only [Engine.step, setAttribute, hs, runOn, hm]
  cases sim.store.converted F ref v with
  | ok w => simp [answer, eq_comm]
  | error x => cases x <;> simp [answer]

/-- A value that is read right after it was written. -/
theorem found_register_set {cd : ComponentDef}
    (hs : sim.store.layout ref.component ref.entityId = .ok cd)
    (gen : ℕ) : found (e.register name sim ⟨sim.store.set ref v, gen⟩) name ref = some (.ok v) := by
  simp only [found, register, OrderedDict.get?_insert_self, Option.map_some, reading_map,
    AttributeMap.get, AttributeMap.layout_set, hs, AttributeMap.value_set_self, Fallible.ok_bind,
    orNotSet]

end Engine

namespace Sdk

/-- `SetAttribute` with the wrapped value replies OK, and the value that the next `GetAttribute`
replies with unwraps to the one that was wrapped. -/
def RoundTrips (F : FloatOps) (np : Numpy) (e : Engine Stores) (name : String)
    (ref : AttributeRef) (v : PyValue) (w : Value) : Prop :=
  ∃ e₁ e₂ w' u, Engine.step F e (.setAttribute name ref w) = some (.empty, e₁) ∧
    Engine.step F e₁ (.getAttribute name ref) = some (.value w', e₂) ∧
    unwrap F np w' = .ok (some u) ∧ u.Equal v

variable {F : FloatOps} {np : Numpy} {e : Engine Stores} {name : String}
  {sim : Simulation Stores} {ref : AttributeRef} {c : UserComponent} {v : PyValue} {w : Value}

/-- What `SetAttribute` and then `GetAttribute` reply for a value that the attribute keeps. -/
theorem set_then_get (he : e.Reachable F) (hs : e.sims.get? name = some sim)
    (hc : sim.store.component ref.component ref.entityId = .ok c)
    (hw : UserComponent.storedValue F c.compDef ref.attributeName w = .ok w) :
    ∃ e₁ e₂, Engine.step F e (.setAttribute name ref w) = some (.empty, e₁) ∧
      Engine.step F e₁ (.getAttribute name ref) = some (.value w, e₂) := by
  have hview := Engine.get?_view hs
  have hlayout : (sim.map Stores.view).store.layout ref.component ref.entityId = .ok c.compDef := by
    simp only [Simulation.map, Stores.view, hc, Fallible.map_ok]
  have hconv : (sim.map Stores.view).store.converted F ref w = .ok w := by
    rw [AttributeMap.converted, hlayout, Fallible.ok_bind, hw]
  have hset := (Engine.setAttribute_eq_empty_iff hview).mpr ⟨w, hconv, rfl⟩
  obtain ⟨e₁, hset, hstate, hwf₁⟩ := Engine.step_of_view he.wf hset
  have hfound : Engine.found e₁.view name ref = some (.ok w) := by
    rw [hstate]
    exact Engine.found_register_set hlayout _
  have hget := Engine.answers_getAttribute (F := F) e₁ name ref
  rw [← Engine.found_view hwf₁, hfound] at hget
  obtain ⟨⟨o, e₂⟩, hget, rfl⟩ := Option.map_eq_some_iff.mp hget
  exact ⟨e₁, e₂, hset, hget⟩

/-- `SetAttribute` refuses every value that is no native value of the engine. -/
theorem setVal_of_setAttribute (he : e.Reachable F) (hs : e.sims.get? name = some sim)
    {e₁ : Engine Stores} (h : Engine.step F e (.setAttribute name ref w) = some (.empty, e₁)) :
    ∃ s, w = setVal s := by
  have hview := Engine.get?_view hs
  have hset := Engine.step_view he.wf h
  obtain ⟨w', hconv, -⟩ := (Engine.setAttribute_eq_empty_iff hview).mp hset
  obtain ⟨cd, -, hst⟩ := Fallible.result_bind_eq_ok_iff.mp hconv
  obtain ⟨t, hcheck, -⟩ := Fallible.result_bind_eq_ok_iff.mp hst
  exact (UserComponent.checkValue_eq_ok_iff.mp hcheck).2

/-- **The round trip of a native value** through an attribute of the type of the wrapped value:
it succeeds for the scalars and for no collection. -/
theorem roundTrips_iff_isScalar (he : e.Reachable F) (hs : e.sims.get? name = some sim)
    (hc : sim.store.component ref.component ref.entityId = .ok c) (hw : v.wrap np = .ok w)
    (ht : c.compDef.schema.get? ref.attributeName = w.dataType) :
    RoundTrips F np e name ref v w ↔ v.isScalar = true := by
  cases v with
  | scalar x =>
    simp only [PyValue.isScalar, iff_true]
    have hunwrap := unwrap_wrap_scalar F np hw
    obtain ⟨s, rfl, -⟩ := PyScalar.wrap_eq_ok F hw
    obtain ⟨e₁, e₂, hset, hget⟩ := set_then_get he hs hc (storedValue_setVal F ht)
    exact ⟨e₁, e₂, setVal s, _, hset, hget, hunwrap, rfl⟩
  | collection d =>
    simp only [PyValue.isScalar, Bool.false_eq_true, iff_false]
    rintro ⟨e₁, e₂, w', u, hset, -⟩
    obtain ⟨vals, primitives, p, -, -, -, rfl⟩ := Collection.wrap_eq_ok hw
    obtain ⟨s, hs⟩ := setVal_of_setAttribute he hs hset
    cases hs

/-- A string as an element of an array, which ends before its trailing zeros. -/
def stripZeros (val : String) : String := String.ofList (val.toList.rdropWhile (· = '\x00'))

/-- The scalar that numpy keeps a Python value as. -/
def PyScalar.toNumpy : PyScalar → Option NumpyScalar
  | numpy val => some val
  | native (.int val) => if InRange 64 val then some (.int64 (BitVec.ofInt 64 val)) else none
  | native (.float val) => some (.float64 val)
  | native (.str val) => some (.str (stripZeros val))
  | native (.bool val) => some (.bool val)

/-- What numpy does when the elements are of one type and no dimension is left open. -/
def elementwise : Numpy where
  asarray c := c.elements.mapM fun x => x.toNumpy.map .numpy
  reshape vals dimensions :=
    match (vals.mapM fun v => v >>= fun n => (PyScalar.native n).toNumpy) with
    | none => .error .typeError
    | some xs =>
      if h : xs.length = (dimensions.map Int.toNat).prod then
        .ok ⟨dimensions.map Int.toNat, xs.map .numpy, by rw [List.length_map, h]⟩
      else .error .valueError

/-- A negative integer in an attribute of 32 bits. -/
theorem roundTrips_iff_isScalar_twoCells :
    RoundTrips default elementwise (Engine.afterApply (Engine.twoCells false)) "s" ⟨1, "C", "a"⟩
      (.scalar (.native (.int (-5)))) (setVal (.number (.int32 (-5)))) := by
  have hreach : (Engine.afterApply (Engine.twoCells false)).Reachable default :=
    ⟨0, [.applySimulation (Engine.twoCells false)], _, rfl⟩
  have hsim : (Engine.afterApply (Engine.twoCells false)).sims.get? "s" =
      some ⟨Engine.twoCells false, _, false⟩ := rfl
  exact (roundTrips_iff_isScalar hreach hsim rfl rfl rfl).mpr rfl

/-- An array of two integers is refused by the attribute that is declared as one. -/
theorem array_roundTrip_fails :
    ¬ ∀ (F : FloatOps) (e : Engine Stores) (name : String) (sim : Simulation Stores)
      (ref : AttributeRef) (c : UserComponent) (v : PyValue) (w : Value), e.Reachable F →
      e.sims.get? name = some sim →
      sim.store.component ref.component ref.entityId = .ok c → v.wrap elementwise = .ok w →
      c.compDef.schema.get? ref.attributeName = w.dataType →
      RoundTrips F elementwise e name ref v w := by
  intro h
  have hreach : (Engine.afterApply Engine.arrayCell).Reachable default :=
    ⟨0, [.applySimulation Engine.arrayCell], _, rfl⟩
  have hsim : (Engine.afterApply Engine.arrayCell).sims.get? "s" =
      some ⟨Engine.arrayCell, _, false⟩ := rfl
  obtain ⟨e₁, -, -, -, hset, -⟩ := h default _ "s" _ ⟨1, "C", "a"⟩ _
    (.collection ⟨[2], [.numpy (.int32 1), .numpy (.int32 2)], rfl⟩) _ hreach hsim rfl rfl rfl
  obtain ⟨s, hs⟩ := setVal_of_setAttribute hreach hsim hset
  cases hs

end Sdk
end Bentobox
