import Bentobox.Lib.Fallible
import Bentobox.Engine.UserValue
import Bentobox.Proto.Graph

/-!
# Operations on values

What each operation of `operations.cpp` does once its operands are evaluated.
`unaryOp` and `binaryOp` collect them by operation.
-/
namespace Bentobox

variable (F : FloatOps)

/-! ## Arithmetic -/

/-- An arithmetic operation on numbers of any types. -/
def arithOp (op : ArithOp) (x y : Value) : Except Fault Value :=
  setVal <$> runFnWithVal₂ Scalar.number? x y (op.apply F)

def addOp : Value → Value → Except Fault Value := arithOp F plus
def subOp : Value → Value → Except Fault Value := arithOp F minus
def mulOp : Value → Value → Except Fault Value := arithOp F times
def divOp : Value → Value → Except Fault Value := arithOp F quotient
def maxOp : Value → Value → Except Fault Value := arithOp F larger
def minOp : Value → Value → Except Fault Value := arithOp F smaller

def absOp (x : Value) : Except Fault Value :=
  setVal <$> runFnWithVal Scalar.number? x (·.absolute F)

/-- A function of `<cmath>` on a number of any type. -/
def cmathOp (fn : {w : ℕ} → FloatFormat w → BitVec w → BitVec w) (x : Value) :
    Except Fault Value :=
  setVal <$> runFnWithVal Scalar.number? x fun n => .ok (n.cmath F fn)

def floorOp : Value → Except Fault Value := cmathOp F FloatFormat.floor
def ceilOp : Value → Except Fault Value := cmathOp F FloatFormat.ceil
def sinOp : Value → Except Fault Value := cmathOp F FloatFormat.sin
def cosOp : Value → Except Fault Value := cmathOp F FloatFormat.cos
def tanOp : Value → Except Fault Value := cmathOp F FloatFormat.tan
def arcTanOp : Value → Except Fault Value := cmathOp F FloatFormat.atan

/-- A function of `<cmath>` that is guarded against numbers outside `[-1, 1]`. -/
def guardedOp (fn : {w : ℕ} → FloatFormat w → BitVec w → BitVec w) (what : String) (x : Value) :
    Except Fault Value :=
  setVal <$> runFnWithVal Scalar.number? x fun n =>
    if n.outsideUnit F then .error (.domainError what) else .ok (n.cmath F fn)

def arcSinOp : Value → Except Fault Value :=
  guardedOp F FloatFormat.asin "arcSin's valid domain is [-1, 1]."
def arcCosOp : Value → Except Fault Value :=
  guardedOp F FloatFormat.acos "arcCos's valid domain is [-1, 1]."

def powOp (x y : Value) : Except Fault Value :=
  setVal <$> runFnWithVal₂ Scalar.number? x y fun a b => .ok (a.power F b)

def modOp (x y : Value) : Except Fault Value :=
  setVal <$> runFnWithVal₂ Scalar.integer? x y modulo

/-- Draw a number, given the state of the generator. -/
def randomOp (low high : Value) (gen : ℕ) : Except Fault Value × ℕ :=
  match runFnWithVal₂ Scalar.floating? low high fun a b => .ok (draw F gen a b) with
  | .ok r => (.ok (setVal r.1), r.2)
  | .error e => (.error e, gen)

/-! ## Booleans and comparisons -/

/-- A connective of the given name. -/
def logicalOp (name : String) (fn : Bool → Bool → Bool) (x y : Value) : Except Fault Value :=
  match x.getVal? Scalar.bool?, y.getVal? Scalar.bool? with
  | some a, some b => .ok (setVal (.bool (fn a b)))
  | _, _ => .error (.domainError ("Cannot run " ++ name ++ " operation on non-boolean values."))

def andOp : Value → Value → Except Fault Value := logicalOp "AND" (· && ·)
def orOp : Value → Value → Except Fault Value := logicalOp "OR" (· || ·)

def notOp (x : Value) : Except Fault Value :=
  match x.getVal? Scalar.bool? with
  | some a => .ok (setVal (.bool (!a)))
  | none => .error (.domainError "Cannot run NOT operation on non-boolean values.")

/-- A comparison of numbers of any types. -/
def compareOp (op : CompareOp) (x y : Value) : Except Fault Value :=
  setVal <$> runFnWithVal₂ Scalar.number? x y fun a b => .ok (op.apply F a b)

def gtOp : Value → Value → Except Fault Value := compareOp F greater
def ltOp : Value → Value → Except Fault Value := compareOp F less
def geOp : Value → Value → Except Fault Value := compareOp F greaterEqual
def leOp : Value → Value → Except Fault Value := compareOp F lessEqual

/-- Numbers are compared with numbers, strings with strings and booleans with booleans. -/
def eqOp (x y : Value) : Except Fault Value :=
  match x.getVal? Scalar.any? with
  | some (.number _) => compareOp F equal x y
  | some (.str _) =>
    setVal <$> runFnWithVal₂ Scalar.str? x y fun a b => .ok (.bool (decide (a = b)))
  | some (.bool _) =>
    setVal <$> runFnWithVal₂ Scalar.bool? x y fun a b => .ok (.bool (decide (a = b)))
  | none =>
    .error (.domainError "Checking equivalence between given values is not possible.")

/-! ## By operation -/

def unaryOp : UnaryOp → Value → Except Fault Value
  | .abs => absOp F
  | .floor => floorOp F
  | .ceil => ceilOp F
  | .sin => sinOp F
  | .arcsin => arcSinOp F
  | .cos => cosOp F
  | .arccos => arcCosOp F
  | .tan => tanOp F
  | .arctan => arcTanOp F
  | .not => notOp

def binaryOp : BinaryOp → Value → Value → Except Fault Value
  | .add => addOp F
  | .sub => subOp F
  | .mul => mulOp F
  | .div => divOp F
  | .max => maxOp F
  | .min => minOp F
  | .pow => powOp F
  | .mod => modOp
  | .and => andOp
  | .or => orOp
  | .eq => eqOp F
  | .gt => gtOp F
  | .lt => ltOp F
  | .ge => geOp F
  | .le => leOp F

/-! ## Results are well formed -/

private theorem map_setVal {r : Except Fault Scalar} {v : Value} (h : setVal <$> r = .ok v) :
    ∃ s, v = setVal s := by
  obtain ⟨s, -, rfl⟩ := Fallible.map_eq_ok_iff.mp h
  exact ⟨s, rfl⟩

/-- Every operation of one operand returns a native value tagged with its type. -/
theorem unaryOp_eq_setVal {op : UnaryOp} {x v : Value} (h : unaryOp F op x = .ok v) :
    ∃ s, v = setVal s := by
  cases op with
  | not =>
    simp only [unaryOp, notOp] at h
    split at h
    · cases h; exact ⟨_, rfl⟩
    · cases h
  | _ => exact map_setVal h

/-- Every operation of two operands returns a native value tagged with its type. -/
theorem binaryOp_eq_setVal {op : BinaryOp} {x y v : Value} (h : binaryOp F op x y = .ok v) :
    ∃ s, v = setVal s := by
  cases op with
  | and | or =>
    simp only [binaryOp, andOp, orOp, logicalOp] at h
    split at h
    · cases h; exact ⟨_, rfl⟩
    · cases h
  | eq =>
    simp only [binaryOp, eqOp] at h
    split at h
    · exact map_setVal h
    · exact map_setVal h
    · exact map_setVal h
    · cases h
  | _ => exact map_setVal h

end Bentobox
