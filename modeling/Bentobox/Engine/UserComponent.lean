import Bentobox.Lib.Fallible
import Bentobox.Engine.UserValue
import Bentobox.Proto.Graph

/-!
# Components

`UserComponent` keeps one value for each attribute. Looking an attribute up
inserts a blank value when there is none, so a component is compared through
`read`, which takes a blank value for an absent one.
-/
namespace Bentobox

structure UserComponent where
  values : OrderedDict String Value
  typeName : String
  compDef : ComponentDef
  isActive : Bool
  deriving DecidableEq

/-- The constructor: active, without values. -/
def UserComponent.new (typeName : String) (compDef : ComponentDef) : UserComponent :=
  ⟨∅, typeName, compDef, true⟩

/-- The error of an attribute without a value. -/
def notSetFault : Fault :=
  .runtimeError "Attempting to retrieve primitive value which has not been set"

/-- The value of an attribute, or the error that it has none. -/
def orNotSet : Option Value → Except Fault Value
  | some v => .ok v
  | none => .error notSetFault

namespace UserComponent
variable (F : FloatOps)

/-- The reference `values[attrName]`, which inserts a blank value for a new name. -/
def entry (attrName : String) : Fallible UserComponent Fault Value := fun c =>
  match c.values.get? attrName with
  | some v => (.ok v, c)
  | none => (.ok .blank, { c with values := c.values.insert attrName .blank })

/-- Assignment through that reference. -/
def assign (attrName : String) (v : Value) : Fallible UserComponent Fault Unit := fun c =>
  (.ok (), { c with values := c.values.insert attrName v })

def getMutableValue (attrName : String) : Fallible UserComponent Fault Value := do
  let val ← entry attrName
  if !val.hasPrimitive && !val.hasArray then Fallible.raise notSetFault
  else pure val

/-- `(Y)x` for the type `Y` of the given name. -/
def convert (x : Number) : TypePrimitive → Except Fault Scalar
  | .int32 => (fun v => .number (.int32 v)) <$> x.toInt32 F
  | .int64 => (fun v => .number (.int64 v)) <$> x.toInt64 F
  | .float32 => .ok (.number (.float32 (x.toFloat32 F)))
  | .float64 => .ok (.number (.float64 (x.toFloat64 F)))
  | _ => .error .undefined

/-- The checks made before the attribute is touched; they give the type declared for it. -/
def checkValue (compDef : ComponentDef) (attrName : String) (value : Value) :
    Except Fault DataType :=
  match compDef.schema.get? attrName, value.dataType with
  | none, _ => .error (.outOfRange ("No such attribute name: " ++ attrName))
  | some _, none =>
    .error (.runtimeError ("Missing data type when setting value for attribute " ++ attrName))
  | some schemaType, some dataType =>
    match valHasCorrectDataType value with
    | .ok true => .ok schemaType
    | .ok false =>
      match valStoredTypeName value with
      | .ok storedType => .error (.runtimeError
          ("Data stored in value and data type stored in value do not match. " ++
          "Data stored type: " ++ storedType ++ ", data type: " ++ valDataTypeName dataType))
      | .error e => .error e
    | .error e => .error e

/-- What is assigned to an attribute of the declared type. -/
def valueToSet (schemaType : DataType) (attrName : String) (value : Value) :
    Except Fault Value :=
  if schemaType.hasArray then .ok value
  else if schemaType.getPrimitive ∈ numericTypes ∧ (value.getVal? Scalar.number?).isSome then
    setVal <$> runFnWithVal Scalar.number? value fun x =>
      runFnWithValType numericTypes schemaType (convert F x)
  else if value.dataType = some schemaType then .ok value
  else .error (.runtimeError ("Data type of given value does not match component's schemaType " ++
    "for attribute " ++ attrName ++ ". Expected: " ++ valDataTypeName schemaType ++
    ", Got: " ++ valDataTypeName (value.dataType.getD .notSet) ++ "."))

def setValue (attrName : String) (value : Value) : Fallible UserComponent Fault Unit := do
  let schemaType ← Fallible.reads fun c => checkValue c.compDef attrName value
  let _ ← entry attrName
  let v ← Fallible.ofExcept (valueToSet F schemaType attrName value)
  assign attrName v

/-! ## What reading and writing do -/

/-- The value of an attribute, absent while it is blank. -/
def read (values : OrderedDict String Value) (attrName : String) : Option Value :=
  (values.get? attrName).filter Value.isSet

/-- The value that `setValue` stores. -/
def storedValue (compDef : ComponentDef) (attrName : String) (value : Value) :
    Except Fault Value :=
  checkValue compDef attrName value >>= fun t => valueToSet F t attrName value

@[simp] theorem read_empty (a : String) : read ∅ a = none := rfl

theorem read_insert (d : OrderedDict String Value) (a : String) (v : Value) (b : String) :
    read (d.insert a v) b = if b = a then (some v).filter Value.isSet else read d b := by
  simp only [read, OrderedDict.get?_insert]
  split <;> rfl

/-- A blank entry reads like no entry. -/
theorem read_insert_blank {d : OrderedDict String Value} {a : String} (h : d.get? a = none)
    (b : String) : read (d.insert a .blank) b = read d b := by
  rw [read_insert]
  split
  next hb => subst hb; simp [read, h, Option.filter]
  next => rfl

theorem entry_spec (a : String) (c : UserComponent) :
    ∃ v vs, entry a c = (.ok v, { c with values := vs }) ∧ vs.get? a = some v ∧
      ∀ b, read vs b = read c.values b := by
  rw [entry]
  cases h : c.values.get? a with
  | some v => exact ⟨v, c.values, rfl, h, fun _ => rfl⟩
  | none => exact ⟨.blank, _, rfl, by simp, read_insert_blank h⟩

/-- **Reading an attribute** gives its value, and no attribute reads differently after it. -/
theorem getMutableValue_spec (a : String) (c : UserComponent) :
    ∃ vs, getMutableValue a c = (orNotSet (read c.values a), { c with values := vs }) ∧
      ∀ b, read vs b = read c.values b := by
  obtain ⟨v, vs, he, hv, hr⟩ := entry_spec a c
  refine ⟨vs, ?_, hr⟩
  have hread : read c.values a = (some v).filter Value.isSet := by rw [← hr a, read, hv]
  rw [getMutableValue, Fallible.run_bind_of_ok he, hread]
  cases hp : v.hasPrimitive <;> cases ha : v.hasArray <;>
    simp [Option.filter, Value.isSet, hp, ha, orNotSet]

/-- An accepted value is a native value under its own type, of a declared attribute. -/
theorem checkValue_eq_ok_iff {compDef : ComponentDef} {a : String} {v : Value} {t : DataType} :
    checkValue compDef a v = .ok t ↔ compDef.schema.get? a = some t ∧ ∃ x, v = setVal x := by
  rw [← valHasCorrectDataType_eq_true_iff]
  rw [checkValue]
  split
  next h => simp [h]
  next h hd => simp [valHasCorrectDataType, h, hd]
  next t' _ h _ =>
    rw [h]
    cases hv : valHasCorrectDataType v with
    | error e => simp
    | ok b =>
      cases b
      · cases hn : valStoredTypeName v <;> simp
      · simp

/-- A stored value is set, so reading it back finds it. -/
theorem isSet_of_storedValue {compDef : ComponentDef} {a : String} {v w : Value}
    (h : storedValue F compDef a v = .ok w) : w.isSet = true := by
  obtain ⟨t, hc, hs⟩ := Fallible.result_bind_eq_ok_iff.mp h
  obtain ⟨-, x, rfl⟩ := checkValue_eq_ok_iff.mp hc
  rw [valueToSet] at hs
  split_ifs at hs
  · cases hs; rfl
  · obtain ⟨y, -, rfl⟩ := Fallible.map_eq_ok_iff.mp hs
    rfl
  · cases hs; rfl

theorem type_of_convert {x : Number} {t : TypePrimitive} {y : Scalar}
    (h : convert F x t = .ok y) : y.type = t := by
  cases t with
  | int32 => obtain ⟨v, -, rfl⟩ := Fallible.map_eq_ok_iff.mp h; rfl
  | int64 => obtain ⟨v, -, rfl⟩ := Fallible.map_eq_ok_iff.mp h; rfl
  | float32 => cases h; rfl
  | float64 => cases h; rfl
  | _ => cases h

/-- `w` is `v` as an attribute of type `t` keeps it: a number in an attribute of a numeric type
is cast to the type and tagged with it, any other value is kept. -/
def Converted (t : DataType) (v w : Value) : Prop :=
  match v.getVal? Scalar.number? with
  | some x =>
    if t.getPrimitive ∈ numericTypes then
      ∃ y, convert F x t.getPrimitive = .ok y ∧ y.type = t.getPrimitive ∧ w = setVal y
    else w = v
  | none => w = v

theorem converted_of_valueToSet {t : DataType} {a : String} {v w : Value}
    (h : valueToSet F t a v = .ok w) : Converted F t v w := by
  rw [valueToSet] at h
  rw [Converted]
  split_ifs at h with harr hnum hty
  · cases h
    have hp : t.getPrimitive ∉ numericTypes := by
      cases t <;> simp_all [DataType.hasArray, DataType.getPrimitive, numericTypes]
    cases v.getVal? Scalar.number? with
    | none => rfl
    | some x => exact (if_neg hp).mpr rfl
  · obtain ⟨y, hy, rfl⟩ := Fallible.map_eq_ok_iff.mp h
    obtain ⟨x, hx, hconv⟩ := runFnWithVal_eq_ok_iff.mp hy
    have hcast : convert F x t.getPrimitive = .ok y := by
      simpa [runFnWithValType, harr, hnum.1] using hconv
    rw [hx]
    exact (if_pos hnum.1).mpr ⟨y, hcast, type_of_convert F hcast, rfl⟩
  · cases h
    cases hx : v.getVal? Scalar.number? with
    | none => rfl
    | some x =>
      have hp : t.getPrimitive ∉ numericTypes := fun hp => hnum ⟨hp, by rw [hx]; rfl⟩
      exact (if_neg hp).mpr rfl

/-- A stored value is the given one, converted to the type declared for the attribute. -/
theorem storedValue_eq_ok {compDef : ComponentDef} {a : String} {v w : Value}
    (h : storedValue F compDef a v = .ok w) :
    ∃ t, compDef.schema.get? a = some t ∧ Converted F t v w := by
  obtain ⟨t, hc, hs⟩ := Fallible.result_bind_eq_ok_iff.mp h
  exact ⟨t, (checkValue_eq_ok_iff.mp hc).1, converted_of_valueToSet F hs⟩

/-- **Setting an attribute** stores the converted value; a rejected one changes no reading. -/
theorem setValue_spec (a : String) (v : Value) (c : UserComponent) :
    ∃ vs, setValue F a v c =
        ((fun _ => ()) <$> storedValue F c.compDef a v, { c with values := vs }) ∧
      match storedValue F c.compDef a v with
      | .ok w => ∀ b, read vs b = if b = a then some w else read c.values b
      | .error _ => ∀ b, read vs b = read c.values b := by
  rw [setValue]
  cases hc : checkValue c.compDef a v with
  | error e =>
    have hs : storedValue F c.compDef a v = .error e := by rw [storedValue, hc, Fallible.error_bind]
    rw [hs]
    exact ⟨c.values, Fallible.run_bind_of_error (by simp [hc]), fun _ => rfl⟩
  | ok t =>
    have hs : storedValue F c.compDef a v = valueToSet F t a v := by
      rw [storedValue, hc, Fallible.ok_bind]
    obtain ⟨_, vs, he, -, hr⟩ := entry_spec a c
    rw [Fallible.run_bind_of_ok (show _ = (Except.ok t, c) by simp [hc]),
      Fallible.run_bind_of_ok he]
    cases hw : valueToSet F t a v with
    | error e =>
      rw [hs, hw]
      exact ⟨vs, rfl, hr⟩
    | ok w =>
      have hset : w.isSet = true := isSet_of_storedValue F (hs.trans hw)
      rw [hs, hw]
      refine ⟨vs.insert a w, rfl, fun b => ?_⟩
      rw [read_insert, hr, Option.filter_some, if_pos hset]

end UserComponent
end Bentobox
