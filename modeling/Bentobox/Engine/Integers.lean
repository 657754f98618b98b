import Bentobox.Engine.Interpreter

/-!
# Integers of the engine

The operations on operands that are integers of either width. Both operands are taken at
the wider of the two widths, and where the exact result fits it is the result. Division is
the operation that differs from Python's: C++ rounds the quotient toward zero.
-/
namespace Bentobox

/-! ## Integers and their widths -/

namespace Integer

def width : Integer → ℕ
  | int32 _ => 32
  | int64 _ => 64

def number : Integer → Number
  | int32 v => .int32 v
  | int64 v => .int64 v

theorem inRange (n : Integer) : InRange n.width n.toInt := by
  cases n with
  | int32 v => exact inRange_toInt v
  | int64 v => exact inRange_toInt v

end Integer

theorem InRange.mono {w w' : ℕ} (h : w ≤ w') {z : ℤ} (hz : InRange w z) : InRange w' z := by
  have hpow : (2 : ℤ) ^ (w - 1) ≤ 2 ^ (w' - 1) := by
    exact_mod_cast Nat.pow_le_pow_right (by decide) (Nat.sub_le_sub_right h 1)
  obtain ⟨hlo, hhi⟩ := hz
  constructor <;> omega

/-- The value holds the integer `z`, at either width. -/
def Value.Holds (v : Value) (z : ℤ) : Prop :=
  ∃ n : Integer, v.getVal? Scalar.integer? = some n ∧ n.toInt = z

theorem Value.Holds.unique {v : Value} {y z : ℤ} (hy : v.Holds y) (hz : v.Holds z) : y = z := by
  obtain ⟨n, hn, rfl⟩ := hy
  obtain ⟨m, hm, rfl⟩ := hz
  rw [hn] at hm
  cases hm
  rfl

theorem Value.getVal?_of_integer {v : Value} {n : Integer}
    (h : v.getVal? Scalar.integer? = some n) : v.getVal? Scalar.number? = some n.number := by
  obtain ⟨s, hs, hn⟩ := Option.bind_eq_some_iff.mp h
  rw [Value.getVal?, hs]
  rcases s with (v | v | v | v) | s | b <;> cases hn <;> rfl

@[simp] theorem Integer.integer?_number (n : Integer) :
    (Scalar.number n.number).integer? = some n := by
  cases n <;> rfl

theorem holds_setVal (n : Integer) : (setVal (.number n.number)).Holds n.toInt :=
  ⟨n, by simp, rfl⟩

/-! ## Operators at the common width -/

variable (F : FloatOps)

/-- Two integers are promoted to the wider of their types and keep their values. -/
theorem promote_integers (a b : Integer) :
    (∃ x y, promote F a.number b.number = .int32 x y ∧ x.toInt = a.toInt ∧ y.toInt = b.toInt ∧
        max a.width b.width = 32) ∨
      ∃ x y, promote F a.number b.number = .int64 x y ∧ x.toInt = a.toInt ∧
        y.toInt = b.toInt ∧ max a.width b.width = 64 := by
  have hwiden : ∀ x : BitVec 32, (x.signExtend 64).toInt = x.toInt := fun x =>
    BitVec.toInt_signExtend_of_le (by decide)
  cases a with
  | int32 x =>
    cases b with
    | int32 y => exact .inl ⟨x, y, rfl, rfl, rfl, rfl⟩
    | int64 y => exact .inr ⟨_, y, rfl, hwiden x, rfl, rfl⟩
  | int64 x =>
    cases b with
    | int32 y => exact .inr ⟨x, _, rfl, rfl, hwiden y, rfl⟩
    | int64 y => exact .inr ⟨x, y, rfl, rfl, rfl, rfl⟩

/-- **Arithmetic on integers** gives the exact result at the common width. -/
theorem ArithOp.apply_integers {op : ArithOp} {a b : Integer} {z : ℤ}
    (hz : InRange (max a.width b.width) z)
    (hop : op.int (max a.width b.width) a.toInt b.toInt = .ok (BitVec.ofInt _ z)) :
    ∃ n : Integer, op.apply F a.number b.number = .ok (.number n.number) ∧ n.toInt = z ∧
      n.width = max a.width b.width := by
  rcases promote_integers F a b with ⟨x, y, hp, hx, hy, hw⟩ | ⟨x, y, hp, hx, hy, hw⟩
  · rw [hw] at hz hop
    refine ⟨.int32 (BitVec.ofInt 32 z), ?_, toInt_ofInt_of_inRange (by decide) hz, hw.symm⟩
    rw [ArithOp.apply, hp]
    simp only [hx, hy, hop]
    rfl
  · rw [hw] at hz hop
    refine ⟨.int64 (BitVec.ofInt 64 z), ?_, toInt_ofInt_of_inRange (by decide) hz, hw.symm⟩
    rw [ArithOp.apply, hp]
    simp only [hx, hy, hop]
    rfl

/-- A comparison of integers is the comparison of their values. -/
theorem CompareOp.apply_integers (op : CompareOp) (a b : Integer) :
    op.apply F a.number b.number = .bool (op.int a.toInt b.toInt) := by
  rcases promote_integers F a b with ⟨x, y, hp, hx, hy, -⟩ | ⟨x, y, hp, hx, hy, -⟩ <;>
    rw [CompareOp.apply, hp] <;> simp only [hx, hy]

variable {F}

theorem arithOp_integers {op : ArithOp} {v w : Value} {a b : Integer} {z : ℤ}
    (ha : v.getVal? Scalar.integer? = some a) (hb : w.getVal? Scalar.integer? = some b)
    (hz : InRange (max a.width b.width) z)
    (hop : op.int (max a.width b.width) a.toInt b.toInt = .ok (BitVec.ofInt _ z)) :
    ∃ n : Integer, arithOp F op v w = .ok (setVal (.number n.number)) ∧ n.toInt = z ∧
      n.width = max a.width b.width := by
  obtain ⟨n, hn, hz, hw⟩ := ArithOp.apply_integers F hz hop
  refine ⟨n, ?_, hz, hw⟩
  rw [arithOp, runFnWithVal₂, runFnWithVal, Value.getVal?_of_integer ha]
  simp only [runFnWithVal, Value.getVal?_of_integer hb, hn, Fallible.map_ok]

/-! ## Division -/

/-- A remainder lies between zero and the dividend. -/
theorem InRange.tmod {w : ℕ} {x : ℤ} (hx : InRange w x) (y : ℤ) : InRange w (x.tmod y) := by
  have hpow : (0 : ℤ) < 2 ^ (w - 1) := Int.pow_pos (by decide)
  have habs : (x.tmod y).natAbs ≤ x.natAbs := by
    rw [Int.natAbs_tmod]
    exact Nat.mod_le _ _
  have hpos : 0 ≤ x → 0 ≤ x.tmod y := fun h => Int.tmod_nonneg y h
  have hneg : 0 ≤ -x → 0 ≤ -x.tmod y := fun h => Int.neg_tmod x y ▸ Int.tmod_nonneg y h
  obtain ⟨hlo, hhi⟩ := hx
  constructor <;> omega

theorem modulo_integers {a b : Integer} (hb : b.toInt ≠ 0)
    (hq : InRange (max a.width b.width) (a.toInt.tdiv b.toInt)) :
    ∃ n : Integer, modulo a b = .ok (.number n.number) ∧ n.toInt = a.toInt.tmod b.toInt := by
  have hr : InRange (max a.width b.width) (a.toInt.tmod b.toInt) :=
    (a.inRange.mono (le_max_left _ _)).tmod _
  have hrem : remainder (max a.width b.width) a.toInt b.toInt =
      .ok (BitVec.ofInt _ (a.toInt.tmod b.toInt)) := by
    rw [remainder, if_neg]
    simp [hb, hq]
  cases a with
  | int32 x =>
    cases b with
    | int32 y =>
      exact ⟨.int32 _, congrArg (Functor.map _) hrem, toInt_ofInt_of_inRange (by decide) hr⟩
    | int64 y =>
      exact ⟨.int64 _, congrArg (Functor.map _) hrem, toInt_ofInt_of_inRange (by decide) hr⟩
  | int64 x =>
    cases b with
    | int32 y =>
      exact ⟨.int64 _, congrArg (Functor.map _) hrem, toInt_ofInt_of_inRange (by decide) hr⟩
    | int64 y =>
      exact ⟨.int64 _, congrArg (Functor.map _) hrem, toInt_ofInt_of_inRange (by decide) hr⟩

/-- Where the floor of a quotient fits, so does the quotient rounded toward zero. -/
theorem InRange.tdiv {w : ℕ} {x y : ℤ} (hx : InRange w x) (hy : y ≠ 0)
    (hq : InRange w (x.fdiv y)) : InRange w (x.tdiv y) := by
  by_cases hd : y ∣ x
  · rwa [Int.tdiv_eq_ediv_of_dvd hd, ← Int.fdiv_eq_ediv_of_dvd hd]
  · have hunit : y.natAbs ≠ 1 := fun h => hd (Int.natAbs_dvd.mp (by simp [h]))
    have htwo : 2 ≤ y.natAbs := by omega
    have habs : (x.tdiv y).natAbs ≤ x.natAbs / 2 := by
      rw [Int.natAbs_tdiv]
      exact Nat.div_le_div_left htwo (by decide)
    have hpow : (0 : ℤ) < 2 ^ (w - 1) := Int.pow_pos (by decide)
    obtain ⟨hlo, hhi⟩ := hx
    constructor <;> omega

/-- Rounding toward zero is rounding down exactly when nothing is rounded or the exact quotient
is positive. -/
theorem tdiv_eq_fdiv_iff {x y : ℤ} (hy : y ≠ 0) : x.tdiv y = x.fdiv y ↔ y ∣ x ∨ 0 < x * y := by
  by_cases hd : y ∣ x
  · simp [Int.tdiv_eq_fdiv, hd]
  · have hx : x ≠ 0 := by
      rintro rfl
      exact hd (Int.dvd_zero y)
    rw [Int.tdiv_eq_fdiv, if_neg hd]
    rcases Int.lt_or_gt_of_ne hx with hx | hx <;> rcases Int.lt_or_gt_of_ne hy with hy | hy
    · have hpos := Int.mul_pos_of_neg_of_neg hx hy
      simp [hpos, Int.not_le.mpr hx, Int.not_le.mpr hy, Int.sign_eq_neg_one_of_neg hy]
    · have hneg := Int.mul_neg_of_neg_of_pos hx hy
      simp [hd, Int.not_le.mpr hx, Int.le_of_lt hy, Int.sign_eq_one_of_pos hy]
      omega
    · have hneg := Int.mul_neg_of_pos_of_neg hx hy
      simp [hd, Int.not_le.mpr hy, Int.le_of_lt hx]
      omega
    · have hpos := Int.mul_pos hx hy
      simp [hpos, Int.le_of_lt hx, Int.le_of_lt hy]

/-- On a state the node evaluates to the integer `z`. -/
def EvaluatesTo {S : Type} [AttributeStore S] (F : FloatOps) (n : Node) (s : Env S) (z : ℤ) :
    Prop :=
  ∃ v, (evaluateNode F n s).1 = .ok v ∧ v.Holds z

theorem EvaluatesTo.unique {S : Type} [AttributeStore S] {n : Node} {s : Env S} {y z : ℤ}
    (hy : EvaluatesTo F n s y) (hz : EvaluatesTo F n s z) : y = z := by
  obtain ⟨v, hv, hy⟩ := hy
  obtain ⟨w, hw, hz⟩ := hz
  rw [hv] at hw
  cases hw
  exact hy.unique hz

/-- Two operands that evaluate one after the other are what an operation gets. -/
theorem evaluateNode_binary {S : Type} [AttributeStore S] {x y : Node} {s s₁ s₂ : Env S}
    {v w : Value} (op : BinaryOp) (hx : evaluateNode F x s = (.ok v, s₁))
    (hy : evaluateNode F y s₁ = (.ok w, s₂)) :
    evaluateNode F (.binary op x y) s = (binaryOp F op v w, s₂) := by
  rw [evaluateNode, Fallible.run_bind_of_ok hx, Fallible.run_bind_of_ok hy]
  rfl

/-- **Division on integers**, in whatever mix of widths. The quotient and the remainder make up
the dividend, and they are the floor and Python's remainder exactly when the divisor divides the
dividend or both have the same sign. -/
theorem div_mod_floor_iff {S : Type} [AttributeStore S] {x y : Node} {s s₁ s₂ : Env S}
    {v w : Value} {a b : Integer} (hx : evaluateNode F x s = (.ok v, s₁))
    (hy : evaluateNode F y s₁ = (.ok w, s₂)) (ha : v.getVal? Scalar.integer? = some a)
    (hb : w.getVal? Scalar.integer? = some b) (hb0 : b.toInt ≠ 0)
    (hq : InRange (max a.width b.width) (a.toInt.fdiv b.toInt)) :
    (∃ q r, EvaluatesTo F (.binary .div x y) s q ∧ EvaluatesTo F (.binary .mod x y) s r ∧
        b.toInt * q + r = a.toInt) ∧
      ((EvaluatesTo F (.binary .div x y) s (a.toInt.fdiv b.toInt) ∧
        EvaluatesTo F (.binary .mod x y) s (a.toInt - b.toInt * a.toInt.fdiv b.toInt)) ↔
          b.toInt ∣ a.toInt ∨ 0 < a.toInt * b.toInt) := by
  have hquot : InRange (max a.width b.width) (a.toInt.tdiv b.toInt) :=
    (a.inRange.mono (Nat.le_max_left _ _)).tdiv hb0 hq
  have hdiv : EvaluatesTo F (.binary .div x y) s (a.toInt.tdiv b.toInt) := by
    have hop : quotient.int (max a.width b.width) a.toInt b.toInt =
        .ok (BitVec.ofInt _ (a.toInt.tdiv b.toInt)) := by
      simp [quotient, hb0, checked, hquot]
    obtain ⟨n, hn, hz, -⟩ := arithOp_integers (F := F) ha hb hquot hop
    refine ⟨_, ?_, hz ▸ holds_setVal n⟩
    rw [evaluateNode_binary .div hx hy]
    exact hn
  have hmod : EvaluatesTo F (.binary .mod x y) s (a.toInt.tmod b.toInt) := by
    obtain ⟨n, hn, hz⟩ := modulo_integers hb0 hquot
    refine ⟨_, ?_, hz ▸ holds_setVal n⟩
    rw [evaluateNode_binary .mod hx hy]
    simp only [binaryOp, modOp, runFnWithVal₂, runFnWithVal, ha, hb, hn, Fallible.map_ok]
  refine ⟨⟨_, _, hdiv, hmod, Int.mul_tdiv_add_tmod _ _⟩, ?_⟩
  rw [← tdiv_eq_fdiv_iff hb0]
  constructor
  · intro h
    exact hdiv.unique h.1
  · intro h
    rw [← h]
    exact ⟨hdiv, Int.tmod_def _ _ ▸ hmod⟩

/-- Minus six by three, the dividend of 32 bits and the divisor of 64. -/
theorem div_mod_floor_iff_negSix : ∃ x y : Node,
    EvaluatesTo default (.binary .div x y) (⟨.new, 0⟩ : Env Stores) (-2) ∧
      EvaluatesTo default (.binary .mod x y) (⟨.new, 0⟩ : Env Stores) 0 :=
  ⟨.const (setVal (.number (.int32 (-6)))), .const (setVal (.number (.int64 3))),
    (div_mod_floor_iff (a := .int32 (-6)) (b := .int64 3) rfl rfl rfl rfl (by decide)
      (by decide)).2.mpr (by decide)⟩

/-- Minus seven by two is minus three, and the remainder minus one. -/
theorem div_mod_floor_fails : ¬ ∀ (F : FloatOps) (x y : Node) (s s₁ s₂ : Env Stores) (v w : Value)
    (a b : Integer), evaluateNode F x s = (.ok v, s₁) → evaluateNode F y s₁ = (.ok w, s₂) →
    v.getVal? Scalar.integer? = some a → w.getVal? Scalar.integer? = some b → b.toInt ≠ 0 →
    InRange (max a.width b.width) (a.toInt.fdiv b.toInt) →
    EvaluatesTo F (.binary .div x y) s (a.toInt.fdiv b.toInt) ∧
      EvaluatesTo F (.binary .mod x y) s (a.toInt - b.toInt * a.toInt.fdiv b.toInt) := by
  intro h
  have hfloor := (h default (.const (setVal (.number (.int32 (-7)))))
    (.const (setVal (.number (.int32 2)))) ⟨.new, 0⟩ _ _ _ _ (.int32 (-7)) (.int32 2) rfl rfl rfl
    rfl (by decide) (by decide)).1
  have hquotient : EvaluatesTo default (.binary .div (.const (setVal (.number (.int32 (-7)))))
      (.const (setVal (.number (.int32 2))))) (⟨.new, 0⟩ : Env Stores) (-3) := ⟨_, rfl, _, rfl, rfl⟩
  exact absurd (hfloor.unique hquotient) (by decide)

end Bentobox
