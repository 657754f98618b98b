import Bentobox.Engine.Arithmetic

/-!
# Native values behind protobuf values

The helpers of `userValue.h`, `userValue.cpp` and `valueType.cpp`: which native
value a message holds, running a native function on messages, the check that a
value holds what its `data_type` says, and the names used in error messages.
-/
namespace Bentobox

/-! ## Getting and setting -/

/-- The native value of a primitive; `int_8` has no native type in the engine. -/
def Primitive.scalar? : Primitive → Option Scalar
  | notSet | int8 _ => none
  | int32 v => some (.number (.int32 v))
  | int64 v => some (.number (.int64 v))
  | float32 v => some (.number (.float32 v))
  | float64 v => some (.number (.float64 v))
  | strVal s => some (.str s)
  | boolean b => some (.bool b)

/-- The primitive that holds a native value. -/
def Scalar.toPrimitive : Scalar → Primitive
  | number (.int32 v) => .int32 v
  | number (.int64 v) => .int64 v
  | number (.float32 v) => .float32 v
  | number (.float64 v) => .float64 v
  | str s => .strVal s
  | bool b => .boolean b

@[simp] theorem Scalar.scalar?_toPrimitive (s : Scalar) : s.toPrimitive.scalar? = some s := by
  rcases s with n | s | b
  · cases n <;> rfl
  · rfl
  · rfl

theorem Primitive.scalar?_eq_some_iff {p : Primitive} {s : Scalar} :
    p.scalar? = some s ↔ p = s.toPrimitive := by
  constructor
  · intro h
    cases p <;> cases h <;> rfl
  · rintro rfl
    exact s.scalar?_toPrimitive

/-- `setVal`: a message with its data type. -/
def setVal (s : Scalar) : Value := ⟨some (.primitive s.type), .primitive s.toPrimitive⟩

namespace Scalar

/-! The types a function may be run on (`AllowedTypes`), as the operand each of them gives. -/

def any? : Scalar → Option Scalar := some

def number? : Scalar → Option Number
  | number n => some n
  | _ => none

def integer? : Scalar → Option Integer
  | number (.int32 v) => some (.int32 v)
  | number (.int64 v) => some (.int64 v)
  | _ => none

def floating? : Scalar → Option Floating
  | number (.float32 v) => some (.float32 v)
  | number (.float64 v) => some (.float64 v)
  | _ => none

def str? : Scalar → Option String
  | str s => some s
  | _ => none

def bool? : Scalar → Option Bool
  | bool b => some b
  | _ => none

end Scalar

namespace Value

/-- `getVal`, when `isValOfTypes<AllowedTypes...>` holds. -/
def getVal? {α : Type} (allowed : Scalar → Option α) (v : Value) : Option α :=
  v.getPrimitive.scalar?.bind allowed

@[simp] theorem getVal?_setVal {α : Type} (allowed : Scalar → Option α) (s : Scalar) :
    (setVal s).getVal? allowed = allowed s := by
  simp [getVal?, setVal, getPrimitive]

end Value

@[simp] theorem isSet_setVal (s : Scalar) : (setVal s).isSet = true := rfl

/-! ## Running a function on values -/

/-- `runFnWithVal`: run `fn` on the native operand of an allowed type. -/
def runFnWithVal {α β : Type} (allowed : Scalar → Option α) (x : Value)
    (fn : α → Except Fault β) : Except Fault β :=
  match x.getVal? allowed with
  | some a => fn a
  | none => .error (.runtimeError "Value given is not valid for this function.")

/-- The overload for two operands, which deduces the type of `x` first. -/
def runFnWithVal₂ {α β : Type} (allowed : Scalar → Option α) (x y : Value)
    (fn : α → α → Except Fault β) : Except Fault β :=
  runFnWithVal allowed x fun a => runFnWithVal allowed y fun b => fn a b

/-- `runFnWithValType`: run `fn` on a type of the engine among `allowed`. -/
def runFnWithValType {α : Type} (allowed : List TypePrimitive) (type : DataType)
    (fn : TypePrimitive → Except Fault α) : Except Fault α :=
  if type.hasArray then
    .error (.logicError "Type deduction for array type has not been implemented.")
  else if type.getPrimitive ∈ allowed then fn type.getPrimitive
  else
    .error (.runtimeError ("Unhandled or unrepresentable type found when deducing type " ++
      "for a protos::Type."))

/-- `proto_NUMERIC` -/
def numericTypes : List TypePrimitive := [.int32, .int64, .float32, .float64]

/-- `proto_ANY` -/
def anyTypes : List TypePrimitive := numericTypes ++ [.string, .bool]

theorem Number.type_mem_numericTypes (n : Number) : n.type ∈ numericTypes := by
  cases n <;> simp [Number.type, numericTypes]

theorem Scalar.type_mem_anyTypes (s : Scalar) : s.type ∈ anyTypes := by
  rcases s with n | s | b
  · exact List.mem_append_left _ n.type_mem_numericTypes
  · simp [Scalar.type, anyTypes]
  · simp [Scalar.type, anyTypes]

theorem runFnWithVal_eq_ok_iff {α β : Type} {allowed : Scalar → Option α} {x : Value}
    {fn : α → Except Fault β} {b : β} :
    runFnWithVal allowed x fn = .ok b ↔ ∃ a, x.getVal? allowed = some a ∧ fn a = .ok b := by
  rw [runFnWithVal]
  cases x.getVal? allowed <;> simp

theorem runFnWithVal₂_eq_ok_iff {α β : Type} {allowed : Scalar → Option α} {x y : Value}
    {fn : α → α → Except Fault β} {c : β} :
    runFnWithVal₂ allowed x y fn = .ok c ↔ ∃ a b, x.getVal? allowed = some a ∧
      y.getVal? allowed = some b ∧ fn a b = .ok c := by
  simp only [runFnWithVal₂, runFnWithVal_eq_ok_iff]
  constructor
  · rintro ⟨a, ha, b, hb, h⟩; exact ⟨a, b, ha, hb, h⟩
  · rintro ⟨a, b, ha, hb, h⟩; exact ⟨a, ha, b, hb, h⟩

theorem runFnWithVal_eq_undefined_iff {α β : Type} {allowed : Scalar → Option α} {x : Value}
    {fn : α → Except Fault β} : runFnWithVal allowed x fn = .error .undefined ↔
      ∃ a, x.getVal? allowed = some a ∧ fn a = .error .undefined := by
  rw [runFnWithVal]
  cases x.getVal? allowed <;> simp [Fault.runtimeError]

/-! ## The data type of a value -/

/-- `valHasCorrectDataType`: throws when either side has no type in the engine. -/
def valHasCorrectDataType (v : Value) : Except Fault Bool :=
  match v.dataType with
  | none => .ok false
  | some t =>
    runFnWithValType anyTypes t fun tx =>
      runFnWithVal Scalar.any? v fun y => .ok (decide (tx = y.type))

/-- The values that pass are those `setVal` makes. -/
theorem valHasCorrectDataType_eq_true_iff {v : Value} :
    valHasCorrectDataType v = .ok true ↔ ∃ s, v = setVal s := by
  constructor
  · intro h
    rcases v with ⟨_ | t, k⟩
    · simp [valHasCorrectDataType] at h
    · simp only [valHasCorrectDataType, runFnWithValType] at h
      split at h
      · cases h
      next hna =>
        split at h
        · obtain ⟨s, hs, ht⟩ := runFnWithVal_eq_ok_iff.mp h
          simp only [Except.ok.injEq, decide_eq_true_eq] at ht
          have ht' : t = .primitive s.type := by
            cases t with
            | primitive p => exact congrArg _ ht
            | array a => exact absurd rfl hna
            | notSet =>
              exfalso
              have hm := s.type_mem_anyTypes
              rw [← ht] at hm
              simp [DataType.getPrimitive, anyTypes, numericTypes] at hm
          refine ⟨s, ?_⟩
          cases k with
          | notSet => simp [Value.getVal?, Value.getPrimitive, Primitive.scalar?] at hs
          | array ps => simp [Value.getVal?, Value.getPrimitive, Primitive.scalar?] at hs
          | primitive p =>
            have hp : p = s.toPrimitive := by
              rw [← Primitive.scalar?_eq_some_iff]
              simpa [Value.getVal?, Value.getPrimitive, Scalar.any?] using hs
            rw [ht', hp, setVal]
        · cases h
  · rintro ⟨s, rfl⟩
    have hm := s.type_mem_anyTypes
    simp [valHasCorrectDataType, runFnWithValType, setVal, DataType.hasArray,
      DataType.getPrimitive, hm, runFnWithVal, Value.getVal?, Value.getPrimitive, Scalar.any?]

/-! ## Names in error messages -/

/-- The field that is set, absent when none is. -/
def Primitive.fieldName : Primitive → Option String
  | notSet => none
  | int8 _ => some "int_8"
  | int32 _ => some "int_32"
  | int64 _ => some "int_64"
  | float32 _ => some "float_32"
  | float64 _ => some "float_64"
  | strVal _ => some "str_val"
  | boolean _ => some "boolean"

/-- `Type_Primitive_Name`, empty for a number without a name. -/
def TypePrimitive.name : TypePrimitive → String
  | invalid => "INVALID"
  | byte => "BYTE"
  | int32 => "INT32"
  | int64 => "INT64"
  | float32 => "FLOAT32"
  | float64 => "FLOAT64"
  | bool => "BOOL"
  | string => "STRING"
  | unrecognized _ => ""

/-- Dereferences the descriptor of the field that is set. -/
def Primitive.storedTypeName (p : Primitive) : Except Fault String :=
  match p.fieldName with
  | some n => .ok ("Primitive[" ++ n ++ "]")
  | none => .error .undefined

def valStoredTypeName (v : Value) : Except Fault String :=
  match v.kind with
  | .primitive p => p.storedTypeName
  | .array [] => .ok "Array[Unknown]"
  | .array (p :: _) => (fun n => "Array[Probably " ++ n ++ "]") <$> p.storedTypeName
  | .notSet => .ok "None"

def TypePrimitive.dataTypeName (t : TypePrimitive) : String :=
  "Primitive.DataType[" ++ t.name ++ "]"

def valDataTypeName : DataType → String
  | .primitive t => t.dataTypeName
  | .array t => "Array[(" ++ String.intercalate ", " (t.dimensions.map toString) ++ "), dtype=" ++
      t.elementType.dataTypeName ++ "]"
  | .notSet => "None"

end Bentobox
