import Mathlib.Data.List.Basic

/-!
# Values and data types

The messages of `types.proto` and `values.proto`. A `oneof` is an inductive type
with a constructor for the unset case; reading an unset member gives the protobuf
default. Floating-point numbers are kept as their bit patterns.
-/
namespace Bentobox

/-- The enumeration `Type.Primitive`; proto3 keeps numbers it does not know. -/
inductive TypePrimitive
  | invalid | byte | int32 | int64 | float32 | float64 | bool | string
  | unrecognized (number : Int)
  deriving DecidableEq, Repr

/-- `Type.Array` -/
structure TypeArray where
  dimensions : List Int
  elementType : TypePrimitive
  deriving DecidableEq, Repr

/-- The message `Type`. -/
inductive DataType
  | notSet
  | primitive (type : TypePrimitive)
  | array (type : TypeArray)
  deriving DecidableEq, Repr

/-- `Value.Primitive` -/
inductive Primitive
  | notSet
  | int8 (v : BitVec 32)
  | int32 (v : BitVec 32)
  | int64 (v : BitVec 64)
  | float32 (v : BitVec 32)
  | float64 (v : BitVec 64)
  | strVal (s : String)
  | boolean (b : Bool)
  deriving DecidableEq, Repr

/-- The `oneof kind` of a value. -/
inductive Kind
  | notSet
  | primitive (p : Primitive)
  | array (values : List Primitive)
  deriving DecidableEq, Repr

/-- The message `Value`; the field `data_type` may be absent. -/
structure Value where
  dataType : Option DataType
  kind : Kind
  deriving DecidableEq, Repr

namespace DataType

def hasArray : DataType → Bool
  | array _ => true
  | _ => false

/-- The member `primitive`, `INVALID` when another member is set. -/
def getPrimitive : DataType → TypePrimitive
  | primitive p => p
  | _ => .invalid

end DataType

namespace Value

/-- `Value()` -/
def blank : Value := ⟨none, .notSet⟩

def hasPrimitive (v : Value) : Bool :=
  match v.kind with
  | .primitive _ => true
  | _ => false

def hasArray (v : Value) : Bool :=
  match v.kind with
  | .array _ => true
  | _ => false

/-- The member `primitive`, without a case when another member is set. -/
def getPrimitive (v : Value) : Primitive :=
  match v.kind with
  | .primitive p => p
  | _ => .notSet

/-- The value holds something. -/
def isSet (v : Value) : Bool := v.hasPrimitive || v.hasArray

@[simp] theorem isSet_blank : blank.isSet = false := rfl

end Value
end Bentobox
