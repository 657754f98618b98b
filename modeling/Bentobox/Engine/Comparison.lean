import Bentobox.Engine.Operations

/-!
# Laws of the comparisons

How the comparisons of the engine depend on each other. They hold as far as values
go; where a comparison throws, the messages differ.
-/
namespace Bentobox

/-- The operands in the other order. -/
def Promoted.swap : Promoted → Promoted
  | int32 x y => .int32 y x
  | int64 x y => .int64 y x
  | float32 x y => .float32 y x
  | float64 x y => .float64 y x

variable (F : FloatOps)

theorem promote_swap (x y : Number) : promote F y x = (promote F x y).swap := by
  cases x <;> cases y <;> rfl

theorem less_swap (x y : Number) : less.apply F y x = greater.apply F x y := by
  simp only [CompareOp.apply, promote_swap F x y]
  cases promote F x y <;> rfl

theorem equal_swap (x y : Number) : equal.apply F y x = equal.apply F x y := by
  simp only [CompareOp.apply, promote_swap F x y]
  cases promote F x y with
  | int32 a b => simp [Promoted.swap, equal, eq_comm]
  | int64 a b => simp [Promoted.swap, equal, eq_comm]
  | float32 a b => exact congrArg Scalar.bool (F.f32.eq_comm b a)
  | float64 a b => exact congrArg Scalar.bool (F.f64.eq_comm b a)

/-- A comparison that holds when one of two others does. -/
private theorem apply_eq_or {strict either : CompareOp} (x y : Number)
    (hint : ∀ a b, either.int a b = (strict.int a b || equal.int a b))
    (hfloat : ∀ {w : ℕ} (f : FloatFormat w) a b,
      either.float f a b = (strict.float f a b || equal.float f a b)) :
    ∃ l e, strict.apply F x y = .bool l ∧ equal.apply F x y = .bool e ∧
      either.apply F x y = .bool (l || e) := by
  unfold CompareOp.apply
  cases promote F x y with
  | int32 a b => exact ⟨_, _, rfl, rfl, congrArg _ (hint _ _)⟩
  | int64 a b => exact ⟨_, _, rfl, rfl, congrArg _ (hint _ _)⟩
  | float32 a b => exact ⟨_, _, rfl, rfl, congrArg _ (hfloat _ _ _)⟩
  | float64 a b => exact ⟨_, _, rfl, rfl, congrArg _ (hfloat _ _ _)⟩

theorem compareOp_toOption (op : CompareOp) (x y : Value) : (compareOp F op x y).toOption =
    (x.getVal? Scalar.number?).bind fun a =>
      (y.getVal? Scalar.number?).map fun b => setVal (op.apply F a b) := by
  unfold compareOp runFnWithVal₂ runFnWithVal
  cases x.getVal? Scalar.number? with
  | none => rfl
  | some a => cases y.getVal? Scalar.number? <;> rfl

/-- `y < x` is `x > y`. -/
theorem ltOp_swap (x y : Value) : (ltOp F y x).toOption = (gtOp F x y).toOption := by
  simp only [ltOp, gtOp, compareOp_toOption, less_swap]
  cases x.getVal? Scalar.number? <;> cases y.getVal? Scalar.number? <;> rfl

theorem eqOp_of_number {x : Value} {a : Number} (h : x.getVal? Scalar.number? = some a)
    (y : Value) : eqOp F x y = compareOp F equal x y := by
  obtain ⟨s, hs, ha⟩ := Option.bind_eq_some_iff.mp h
  have hany : x.getVal? Scalar.any? = some (.number a) := by
    rw [Value.getVal?, hs]
    cases s <;> cases ha
    rfl
  rw [eqOp, hany]

/-- `x == y` is `y == x`. -/
theorem eqOp_comm (x y : Value) : (eqOp F y x).toOption = (eqOp F x y).toOption := by
  simp only [eqOp, compareOp, runFnWithVal₂, runFnWithVal, Value.getVal?]
  rcases hx : x.getPrimitive.scalar? with _ | (a | a | a) <;>
    rcases hy : y.getPrimitive.scalar? with _ | (b | b | b) <;>
    simp [Scalar.any?, Scalar.number?, Scalar.str?, Scalar.bool?, Except.toOption, equal_swap F,
      eq_comm]

private theorem orOp_eq_either {strict either : CompareOp} (x y : Value)
    (hint : ∀ a b, either.int a b = (strict.int a b || equal.int a b))
    (hfloat : ∀ {w : ℕ} (f : FloatFormat w) a b,
      either.float f a b = (strict.float f a b || equal.float f a b)) :
    ((compareOp F strict x y).toOption.bind fun l =>
      (eqOp F x y).toOption.bind fun e => (orOp l e).toOption) =
      (compareOp F either x y).toOption := by
  simp only [compareOp_toOption]
  cases hx : x.getVal? Scalar.number? with
  | none => rfl
  | some a =>
    rw [eqOp_of_number F hx, compareOp_toOption, hx]
    cases y.getVal? Scalar.number? with
    | none => rfl
    | some b =>
      obtain ⟨l, e, hl, he, hle⟩ := apply_eq_or F a b hint hfloat
      simp only [Option.bind_some, Option.map_some, hl, he, hle, orOp, logicalOp,
        Value.getVal?_setVal, Scalar.bool?]
      rfl

/-- `x < y or x == y` is `x <= y`. -/
theorem lt_or_eq (x y : Value) : ((ltOp F x y).toOption.bind fun l =>
    (eqOp F x y).toOption.bind fun e => (orOp l e).toOption) = (leOp F x y).toOption :=
  orOp_eq_either F x y (fun a b => by
    rw [Bool.eq_iff_iff]
    simp only [less, lessEqual, equal, Bool.or_eq_true, decide_eq_true_eq]
    omega) fun _ _ _ => rfl

/-- `x > y or x == y` is `x >= y`. -/
theorem gt_or_eq (x y : Value) : ((gtOp F x y).toOption.bind fun l =>
    (eqOp F x y).toOption.bind fun e => (orOp l e).toOption) = (geOp F x y).toOption :=
  orOp_eq_either F x y (fun a b => by
    rw [Bool.eq_iff_iff]
    simp only [greater, greaterEqual, equal, Bool.or_eq_true, decide_eq_true_eq]
    omega) fun _ _ _ => rfl

end Bentobox
