import Bentobox.Proto.Value
import Mathlib.Algebra.Ring.Int.Defs

/-!
# Arithmetic of the engine

What the C++ operators do on `int32_t`, `int64_t`, `float` and `double`. Signed
overflow, division by zero and a conversion from a floating-point number outside
the target range are undefined in C++, which ends every run that reaches them.

The floating-point formats are a parameter: only the operations the engine uses
are named, on bit patterns, and nothing is assumed of them but that equality is
symmetric.
-/
namespace Bentobox

/-- The exception classes of the standard library that the engine throws. -/
inductive ExceptionKind
  | logicError | runtimeError | domainError | outOfRange
  deriving DecidableEq, Repr

structure Exception where
  kind : ExceptionKind
  what : String
  deriving DecidableEq, Repr

/-- A computation stops by an exception, or by doing what C++ leaves undefined. -/
inductive Fault
  | exception (e : Exception)
  | undefined
  deriving DecidableEq, Repr

namespace Fault

def logicError (what : String) : Fault := exception ⟨.logicError, what⟩
def runtimeError (what : String) : Fault := exception ⟨.runtimeError, what⟩
def domainError (what : String) : Fault := exception ⟨.domainError, what⟩
def outOfRange (what : String) : Fault := exception ⟨.outOfRange, what⟩

end Fault

/-! ## Scalars -/

/-- A number of one of the C++ types behind a protobuf value. -/
inductive Number
  | int32 (v : BitVec 32)
  | int64 (v : BitVec 64)
  | float32 (v : BitVec 32)
  | float64 (v : BitVec 64)
  deriving DecidableEq, Repr

/-- A value of one of the types that `ProtobufType` admits. -/
inductive Scalar
  | number (n : Number)
  | str (s : String)
  | bool (b : Bool)
  deriving DecidableEq, Repr

/-- The protobuf name of the type of a number. -/
def Number.type : Number → TypePrimitive
  | int32 _ => .int32
  | int64 _ => .int64
  | float32 _ => .float32
  | float64 _ => .float64

/-- The protobuf name of the type of a scalar. -/
def Scalar.type : Scalar → TypePrimitive
  | number n => n.type
  | str _ => .string
  | bool _ => .bool

/-! ## Integers -/

/-- The numbers of a signed type of `w` bits. -/
def InRange (w : ℕ) (z : ℤ) : Prop := -2 ^ (w - 1) ≤ z ∧ z < 2 ^ (w - 1)

instance (w : ℕ) (z : ℤ) : Decidable (InRange w z) := inferInstanceAs (Decidable (_ ∧ _))

/-- The result of a signed operation whose exact value is `z`. -/
def checked (w : ℕ) (z : ℤ) : Except Fault (BitVec w) :=
  if InRange w z then .ok (BitVec.ofInt w z) else .error .undefined

theorem checked_eq_ok_iff {w : ℕ} {z : ℤ} {b : BitVec w} :
    checked w z = .ok b ↔ InRange w z ∧ b = BitVec.ofInt w z := by
  rw [checked]
  split <;> simp_all [eq_comm]

@[simp] theorem checked_eq_undefined_iff {w : ℕ} {z : ℤ} :
    checked w z = .error .undefined ↔ ¬ InRange w z := by
  rw [checked]
  split <;> simp_all

theorem inRange_toInt {w : ℕ} (b : BitVec w) : InRange w b.toInt :=
  ⟨BitVec.le_toInt b, BitVec.toInt_lt⟩

theorem toInt_ofInt_of_inRange {w : ℕ} (hw : 0 < w) {z : ℤ} (hz : InRange w z) :
    (BitVec.ofInt w z).toInt = z := by
  obtain ⟨n, rfl⟩ : ∃ n, w = n + 1 := ⟨w - 1, by omega⟩
  obtain ⟨hlo, hhi⟩ := hz
  rw [BitVec.toInt_ofInt]
  simp only [Nat.add_sub_cancel] at hlo hhi
  apply Int.bmod_eq_of_le <;> push_cast [Nat.pow_succ] <;> omega

/-! ## Floating-point numbers -/

/-- The operations of one floating-point format of `w` bits. -/
structure FloatFormat (w : ℕ) where
  /-- Conversion from an integer. -/
  ofInt : ℤ → BitVec w
  /-- The number without its fraction; `none` for infinities and NaN. -/
  trunc : BitVec w → Option ℤ
  add : BitVec w → BitVec w → BitVec w
  sub : BitVec w → BitVec w → BitVec w
  mul : BitVec w → BitVec w → BitVec w
  div : BitVec w → BitVec w → BitVec w
  pow : BitVec w → BitVec w → BitVec w
  lt : BitVec w → BitVec w → Bool
  eq : BitVec w → BitVec w → Bool
  eq_comm : ∀ x y, eq x y = eq y x
  abs : BitVec w → BitVec w
  floor : BitVec w → BitVec w
  ceil : BitVec w → BitVec w
  sin : BitVec w → BitVec w
  asin : BitVec w → BitVec w
  cos : BitVec w → BitVec w
  acos : BitVec w → BitVec w
  tan : BitVec w → BitVec w
  atan : BitVec w → BitVec w
  /-- A number between two bounds from a generator state, and the next state. -/
  uniform : ℕ → BitVec w → BitVec w → BitVec w × ℕ

/-- `x <= y`, false when either is NaN. -/
def FloatFormat.le {w : ℕ} (f : FloatFormat w) (x y : BitVec w) : Bool := f.lt x y || f.eq x y

/-- `x >= y`, false when either is NaN. -/
def FloatFormat.ge {w : ℕ} (f : FloatFormat w) (x y : BitVec w) : Bool := f.lt y x || f.eq x y

/-- `float` and `double` with the conversions between them. -/
structure FloatOps where
  f32 : FloatFormat 32
  f64 : FloatFormat 64
  widen : BitVec 32 → BitVec 64
  narrow : BitVec 64 → BitVec 32

/-- Some operations; a run that meets integers only is the same for all of them. -/
instance {w : ℕ} : Inhabited (FloatFormat w) :=
  let op := fun (x : BitVec w) (_ : BitVec w) => x
  ⟨⟨BitVec.ofInt w, fun x => some x.toInt, op, op, op, op, op, fun _ _ => false,
    fun _ _ => false, fun _ _ => rfl, id, id, id, id, id, id, id, id, id, fun gen x _ => (x, gen)⟩⟩

instance : Inhabited FloatOps := ⟨⟨default, default, BitVec.signExtend 64, BitVec.setWidth 32⟩⟩

/-- Conversion to an integer of `w` bits. -/
def FloatFormat.toInt {v : ℕ} (f : FloatFormat v) (w : ℕ) (x : BitVec v) :
    Except Fault (BitVec w) :=
  match f.trunc x with
  | some z => checked w z
  | none => .error .undefined

/-! ## Operators on two numbers -/

variable (F : FloatOps)

/-- Two operands after the usual arithmetic conversions. -/
inductive Promoted
  | int32 (x y : BitVec 32)
  | int64 (x y : BitVec 64)
  | float32 (x y : BitVec 32)
  | float64 (x y : BitVec 64)
  deriving DecidableEq, Repr

/-- The usual arithmetic conversions: an integer meets a floating-point number in the type of
that number, and of two types of one kind the wider wins. -/
def promote : Number → Number → Promoted
  | .int32 x, .int32 y => .int32 x y
  | .int32 x, .int64 y => .int64 (x.signExtend 64) y
  | .int32 x, .float32 y => .float32 (F.f32.ofInt x.toInt) y
  | .int32 x, .float64 y => .float64 (F.f64.ofInt x.toInt) y
  | .int64 x, .int32 y => .int64 x (y.signExtend 64)
  | .int64 x, .int64 y => .int64 x y
  | .int64 x, .float32 y => .float32 (F.f32.ofInt x.toInt) y
  | .int64 x, .float64 y => .float64 (F.f64.ofInt x.toInt) y
  | .float32 x, .int32 y => .float32 x (F.f32.ofInt y.toInt)
  | .float32 x, .int64 y => .float32 x (F.f32.ofInt y.toInt)
  | .float32 x, .float32 y => .float32 x y
  | .float32 x, .float64 y => .float64 (F.widen x) y
  | .float64 x, .int32 y => .float64 x (F.f64.ofInt y.toInt)
  | .float64 x, .int64 y => .float64 x (F.f64.ofInt y.toInt)
  | .float64 x, .float32 y => .float64 x (F.widen y)
  | .float64 x, .float64 y => .float64 x y

/-- An arithmetic operator at each common type; `int` is given the width and the operands. -/
structure ArithOp where
  int : (w : ℕ) → ℤ → ℤ → Except Fault (BitVec w)
  float : {w : ℕ} → FloatFormat w → BitVec w → BitVec w → BitVec w

/-- A comparison at each common type. -/
structure CompareOp where
  int : ℤ → ℤ → Bool
  float : {w : ℕ} → FloatFormat w → BitVec w → BitVec w → Bool

def ArithOp.apply (op : ArithOp) (x y : Number) : Except Fault Scalar :=
  match promote F x y with
  | .int32 a b => (fun c => .number (.int32 c)) <$> op.int 32 a.toInt b.toInt
  | .int64 a b => (fun c => .number (.int64 c)) <$> op.int 64 a.toInt b.toInt
  | .float32 a b => .ok (.number (.float32 (op.float F.f32 a b)))
  | .float64 a b => .ok (.number (.float64 (op.float F.f64 a b)))

def CompareOp.apply (op : CompareOp) (x y : Number) : Scalar :=
  match promote F x y with
  | .int32 a b => .bool (op.int a.toInt b.toInt)
  | .int64 a b => .bool (op.int a.toInt b.toInt)
  | .float32 a b => .bool (op.float F.f32 a b)
  | .float64 a b => .bool (op.float F.f64 a b)

/-- `x + y` -/
def plus : ArithOp := ⟨fun w x y => checked w (x + y), fun f => f.add⟩
/-- `x - y` -/
def minus : ArithOp := ⟨fun w x y => checked w (x - y), fun f => f.sub⟩
/-- `x * y` -/
def times : ArithOp := ⟨fun w x y => checked w (x * y), fun f => f.mul⟩

/-- `x / y`; an integer quotient is rounded toward zero. -/
def quotient : ArithOp where
  int w x y := if y = 0 then .error .undefined else checked w (x.tdiv y)
  float f := f.div

/-- `x % y` on integers, undefined where the quotient is. -/
def remainder (w : ℕ) (x y : ℤ) : Except Fault (BitVec w) :=
  if y = 0 ∨ ¬ InRange w (x.tdiv y) then .error .undefined else .ok (BitVec.ofInt w (x.tmod y))

/-- `x > y ? x : y` in the common type. -/
def larger : ArithOp where
  int w x y := .ok (BitVec.ofInt w (if x > y then x else y))
  float f x y := if f.lt y x then x else y

/-- `x < y ? x : y` in the common type. -/
def smaller : ArithOp where
  int w x y := .ok (BitVec.ofInt w (if x < y then x else y))
  float f x y := if f.lt x y then x else y

def equal : CompareOp := ⟨fun x y => decide (x = y), fun f => f.eq⟩
def greater : CompareOp := ⟨fun x y => decide (x > y), fun f x y => f.lt y x⟩
def less : CompareOp := ⟨fun x y => decide (x < y), fun f => f.lt⟩
def greaterEqual : CompareOp := ⟨fun x y => decide (x ≥ y), fun f => f.ge⟩
def lessEqual : CompareOp := ⟨fun x y => decide (x ≤ y), fun f => f.le⟩

/-! ## Functions of one number and conversions -/

namespace Number

/-- `(double)x` -/
def toFloat64 : Number → BitVec 64
  | int32 x => F.f64.ofInt x.toInt
  | int64 x => F.f64.ofInt x.toInt
  | float32 x => F.widen x
  | float64 x => x

/-- `abs(x)`, undefined on the smallest integer. -/
def absolute : Number → Except Fault Scalar
  | int32 x => (fun c => .number (int32 c)) <$> checked 32 x.toInt.natAbs
  | int64 x => (fun c => .number (int64 c)) <$> checked 64 x.toInt.natAbs
  | float32 x => .ok (.number (float32 (F.f32.abs x)))
  | float64 x => .ok (.number (float64 (F.f64.abs x)))

/-- A function of `<cmath>`, which takes an integer as a `double`. For a `float` its overload is
assumed; where only the `double` functions of C are in the global namespace, the unqualified call
goes through `double`. -/
def cmath (fn : {w : ℕ} → FloatFormat w → BitVec w → BitVec w) : Number → Scalar
  | int32 x => .number (float64 (fn F.f64 (F.f64.ofInt x.toInt)))
  | int64 x => .number (float64 (fn F.f64 (F.f64.ofInt x.toInt)))
  | float32 x => .number (float32 (fn F.f32 x))
  | float64 x => .number (float64 (fn F.f64 x))

/-- `pow(x, y)` of `<cmath>`: in `float` if both are, with the overload assumed as in `cmath`, else
in `double`. -/
def power : Number → Number → Scalar
  | float32 x, float32 y => .number (float32 (F.f32.pow x y))
  | x, y => .number (float64 (F.f64.pow (x.toFloat64 F) (y.toFloat64 F)))

/-- `x < -1 || x > 1` -/
def outsideUnit : Number → Bool
  | int32 x => x.toInt < -1 || x.toInt > 1
  | int64 x => x.toInt < -1 || x.toInt > 1
  | float32 x => F.f32.lt x (F.f32.ofInt (-1)) || F.f32.lt (F.f32.ofInt 1) x
  | float64 x => F.f64.lt x (F.f64.ofInt (-1)) || F.f64.lt (F.f64.ofInt 1) x

/-- `(int32_t)x`; an integer is reduced modulo `2 ^ 32`. -/
def toInt32 : Number → Except Fault (BitVec 32)
  | int32 x => .ok x
  | int64 x => .ok (x.setWidth 32)
  | float32 x => F.f32.toInt 32 x
  | float64 x => F.f64.toInt 32 x

/-- `(int64_t)x` -/
def toInt64 : Number → Except Fault (BitVec 64)
  | int32 x => .ok (x.signExtend 64)
  | int64 x => .ok x
  | float32 x => F.f32.toInt 64 x
  | float64 x => F.f64.toInt 64 x

/-- `(float)x` -/
def toFloat32 : Number → BitVec 32
  | int32 x => F.f32.ofInt x.toInt
  | int64 x => F.f32.ofInt x.toInt
  | float32 x => x
  | float64 x => F.narrow x

end Number

/-! ## Operators on integers or on floating-point numbers only -/

/-- An operand of an operator on integers. -/
inductive Integer
  | int32 (v : BitVec 32)
  | int64 (v : BitVec 64)

/-- An operand of an operator on floating-point numbers. -/
inductive Floating
  | float32 (v : BitVec 32)
  | float64 (v : BitVec 64)

def Integer.toInt : Integer → ℤ
  | int32 x => x.toInt
  | int64 x => x.toInt

/-- `x % y` in the common type. -/
def modulo : Integer → Integer → Except Fault Scalar
  | .int32 x, .int32 y => (fun c => .number (.int32 c)) <$> remainder 32 x.toInt y.toInt
  | x, y => (fun c => .number (.int64 c)) <$> remainder 64 x.toInt y.toInt

def Floating.toFloat64 : Floating → BitVec 64
  | float32 x => F.widen x
  | float64 x => x

/-- A draw of `uniform_real_distribution(low, high)` in the common type. -/
def draw (gen : ℕ) : Floating → Floating → Scalar × ℕ
  | .float32 x, .float32 y =>
    let r := F.f32.uniform gen x y
    (.number (.float32 r.1), r.2)
  | x, y =>
    let r := F.f64.uniform gen (x.toFloat64 F) (y.toFloat64 F)
    (.number (.float64 r.1), r.2)

end Bentobox
