import Bentobox.Sdk.Homomorphism

/-!
# Ternaries become switches

`transform_ternary` rewrites every conditional expression into a call of `g.switch`, whose
arguments Python evaluates before the call. `python` is the lazy meaning of the expression that
was written. Python computes the operations on constants itself while it traces (`fold`), and
every constant that is recorded has to fit into 64 bits, in the branches that are not selected
too.
-/
namespace Bentobox.Sdk

namespace Expr
variable {L : Type}

/-! ## The transformation -/

/-- `transform_ternary`, from the inner expressions to the outer ones. -/
def transformTernary : Expr L → Expr L
  | const val => const val
  | leaf l => leaf l
  | arithmetic op x y => arithmetic op x.transformTernary y.transformTernary
  | negative x => negative x.transformTernary
  | positive x => positive x.transformTernary
  | compare op x y => compare op x.transformTernary y.transformTernary
  | and x y => and x.transformTernary y.transformTernary
  | or x y => or x.transformTernary y.transformTernary
  | not x => not x.transformTernary
  | unary fn x => unary fn x.transformTernary
  | binary fn x y => binary fn x.transformTernary y.transformTernary
  | switch c x y => switch c.transformTernary x.transformTernary y.transformTernary
  | ternary c x y => switch c.transformTernary x.transformTernary y.transformTernary
  | random x y => random x.transformTernary y.transformTernary

/-- The run of Python is the one that is modelled for expressions with ternaries. -/
theorem trace_transformTernary {m : Type → Type} [Monad m] (py : Python)
    (lift : Except PythonError Object → m Object) (leafOp : L → m Object) (e : Expr L) :
    e.transformTernary.trace py lift leafOp = e.trace py lift leafOp := by
  induction e with
  | const val | leaf l => rfl
  | arithmetic op x y hx hy | compare op x y hx hy | and x y hx hy | or x y hx hy
  | binary fn x y hx hy | random x y hx hy => simp only [transformTernary, trace, hx, hy]
  | negative x hx | positive x hx | not x hx | unary fn x hx =>
    simp only [transformTernary, trace, hx]
  | switch c x y hc hx hy | ternary c x y hc hx hy =>
    simp only [transformTernary, trace, hc, hx, hy]

/-- Integer and boolean constants and reads under `+`, `-`, `*`, comparisons and ternaries. -/
def isSimple : Expr L → Bool
  | const (.int _) | const (.bool _) | leaf _ => true
  | arithmetic op x y => (op = .add || op = .sub || op = .mul) && x.isSimple && y.isSimple
  | compare op x y => op ≠ .ne && x.isSimple && y.isSimple
  | ternary c x y => c.isSimple && x.isSimple && y.isSimple
  | _ => false

end Expr

/-! ## Python's own integers -/

/-- Python's booleans are integers. -/
def Native.asInt : Native → Option ℤ
  | int val => some val
  | bool val => some (if val then 1 else 0)
  | float _ | str _ => none

def ArithmeticOperator.integers (i j : ℤ) : ArithmeticOperator → Option ℤ
  | add => some (i + j)
  | sub => some (i - j)
  | mul => some (i * j)
  | truediv | mod => none

/-- Python computes with integers of any size. -/
structure Python.Integers (py : Python) : Prop where
  arithmetic : ∀ op a b i j z, a.asInt = some i → b.asInt = some j →
    ArithmeticOperator.integers i j op = some z →
    py.arithmetic op (.native a) (.native b) = .ok (.int z)
  compare : ∀ op a b i j, a.asInt = some i → b.asInt = some j →
    py.compare op a b = .ok (.bool (CompareOperator.holds i j op))

namespace Expr
variable {L : Type}

/-- The native value of an operation on constants only. -/
def fold : Expr L → Option Native
  | const val => some val
  | arithmetic op x y => do
    let i ← x.fold.bind Native.asInt
    let j ← y.fold.bind Native.asInt
    Native.int <$> op.integers i j
  | compare op x y => do
    let i ← x.fold.bind Native.asInt
    let j ← y.fold.bind Native.asInt
    some (.bool (op.holds i j))
  | _ => none

/-- The constants that are recorded fit into a value. -/
def constantsFit : Expr L → Bool
  | const val => (wrapPrimitive val).isOk
  | arithmetic op x y => match (arithmetic op x y).fold with
    | some val => (wrapPrimitive val).isOk
    | none => x.constantsFit && y.constantsFit
  | compare _ x y => (x.fold.isSome && y.fold.isSome) || (x.constantsFit && y.constantsFit)
  | ternary c x y => c.constantsFit && x.constantsFit && y.constantsFit
  | _ => true

end Expr

/-! ## The lazy meaning -/

/-- Why an expression has no value: an attribute that is read is not set, or an operand is not
of the type that the operation is for. -/
inductive Stop
  | unset
  | illTyped
  deriving DecidableEq

/-- Integers and booleans of the engine as Python has them. -/
def nativeOf : Scalar → Option Native
  | .number (.int32 v) => some (.int v.toInt)
  | .number (.int64 v) => some (.int v.toInt)
  | .bool b => some (.bool b)
  | _ => none

/-- The engine's value is the native one, an integer in the type of the given width. -/
def Native.IsValue (v : Value) (width : ℕ) : Native → Prop
  | int z => ∃ n : Integer, v.getVal? Scalar.integer? = some n ∧ n.toInt = z ∧ n.width = width
  | bool b => v.getVal? Scalar.bool? = some b
  | float _ | str _ => False

/-- The type of an integer constant. -/
def Native.width : Native → ℕ
  | int val => if InRange 32 val then 32 else 64
  | _ => 0

namespace Expr

/-- Arithmetic on two integers. -/
def pythonArithmetic (op : ArithmeticOperator) : Native → Native → Except Stop Native
  | .int i, .int j => ((op.integers i j).map Native.int).elim (.error .illTyped) .ok
  | _, _ => .error .illTyped

def pythonCompare (op : CompareOperator) : Native → Native → Except Stop Native
  | .int i, .int j => .ok (.bool (op.holds i j))
  | _, _ => .error .illTyped

/-- Only the branch that is selected is evaluated. -/
def pythonTernary (onTrue onFalse : Except Stop Native) : Native → Except Stop Native
  | .bool true => onTrue
  | .bool false => onFalse
  | _ => .error .illTyped

/-- What Python's lazy semantics give over the values of the store. -/
def python (σ : Valuation) : Expr AttributeRef → Except Stop Native
  | const val => .ok val
  | leaf ref => (σ ref).elim (.error .unset) fun v =>
    (v.getVal? nativeOf).elim (.error .illTyped) .ok
  | arithmetic op x y => do
    let a ← x.python σ
    let b ← y.python σ
    pythonArithmetic op a b
  | compare op x y => do
    let a ← x.python σ
    let b ← y.python σ
    pythonCompare op a b
  | ternary c x y => do
    let condition ← c.python σ
    pythonTernary (x.python σ) (y.python σ) condition
  | _ => .error .illTyped

/-- The width of the integer type that the engine has the value in. -/
def width (σ : Valuation) : Expr AttributeRef → ℕ
  | const val => val.width
  | leaf ref => ((σ ref).bind fun v => v.getVal? Scalar.integer?).elim 0 Integer.width
  | arithmetic op x y =>
    ((arithmetic op x y).fold.map Native.width).getD (max (x.width σ) (y.width σ))
  | ternary c x y => if c.python σ = .ok (.bool true) then x.width σ else y.width σ
  | _ => 0

/-- No integer operation of the engine that is selected overflows its type. -/
def NoOverflow (σ : Valuation) : Expr AttributeRef → Prop
  | arithmetic op x y => (arithmetic op x y).fold = none → x.NoOverflow σ ∧
    ∀ a, x.python σ = .ok a → y.NoOverflow σ ∧
      ∀ z, (arithmetic op x y).python σ = .ok (.int z) → InRange (max (x.width σ) (y.width σ)) z
  | compare _ x y => x.NoOverflow σ ∧ ∀ a, x.python σ = .ok a → y.NoOverflow σ
  | ternary c x y => c.NoOverflow σ ∧ (c.python σ = .ok (.bool true) → x.NoOverflow σ) ∧
    (c.python σ = .ok (.bool false) → y.NoOverflow σ)
  | _ => True

/-! ## Operations on constants -/

variable {py : Python} {σ : Valuation}

theorem fold_arithmetic_eq_some_iff {op : ArithmeticOperator} {x y : Expr L} {v : Native} :
    (arithmetic op x y).fold = some v ↔ ∃ a b i j z, x.fold = some a ∧ a.asInt = some i ∧
      y.fold = some b ∧ b.asInt = some j ∧ op.integers i j = some z ∧ v = .int z := by
  simp only [fold, Option.bind_eq_bind, Option.bind_eq_some_iff, Option.map_eq_map,
    Option.map_eq_some_iff]
  constructor
  · rintro ⟨i, ⟨a, ha, hi⟩, j, ⟨b, hb, hj⟩, z, hz, rfl⟩
    exact ⟨a, b, i, j, z, ha, hi, hb, hj, hz, rfl⟩
  · rintro ⟨a, b, i, j, z, ha, hi, hb, hj, hz, rfl⟩
    exact ⟨i, ⟨a, ha, hi⟩, j, ⟨b, hb, hj⟩, z, hz, rfl⟩

theorem fold_compare_eq_some_iff {op : CompareOperator} {x y : Expr L} {v : Native} :
    (compare op x y).fold = some v ↔ ∃ a b i j, x.fold = some a ∧ a.asInt = some i ∧
      y.fold = some b ∧ b.asInt = some j ∧ v = .bool (op.holds i j) := by
  simp only [fold, Option.bind_eq_bind, Option.bind_eq_some_iff, Option.some.injEq]
  constructor
  · rintro ⟨i, ⟨a, ha, hi⟩, j, ⟨b, hb, hj⟩, rfl⟩
    exact ⟨a, b, i, j, ha, hi, hb, hj, rfl⟩
  · rintro ⟨a, b, i, j, ha, hi, hb, hj, rfl⟩
    exact ⟨i, ⟨a, ha, hi⟩, j, ⟨b, hb, hj⟩, rfl⟩

/-- Constants of the language are integers to Python. -/
theorem asInt_of_fold {e : Expr L} (he : e.isSimple) {v : Native} (h : e.fold = some v) :
    ∃ i, v.asInt = some i := by
  cases e with
  | const val =>
    cases h
    cases v with
    | int | bool => exact ⟨_, rfl⟩
    | float | str => cases he
  | arithmetic op x y =>
    obtain ⟨-, -, -, -, z, -, -, -, -, -, rfl⟩ := fold_arithmetic_eq_some_iff.mp h
    exact ⟨z, rfl⟩
  | compare op x y =>
    obtain ⟨-, -, i, j, -, -, -, -, rfl⟩ := fold_compare_eq_some_iff.mp h
    exact ⟨_, rfl⟩
  | _ => cases h

/-- Python comes to the folded value. -/
theorem object_of_fold (hpy : py.Integers) {obj : L → Except PythonError Object} {e : Expr L}
    {v : Native} (h : e.fold = some v) : e.object py obj = .ok (.native v) := by
  induction e generalizing v with
  | const val =>
    cases h
    rfl
  | arithmetic op x y hx hy =>
    obtain ⟨a, b, i, j, z, ha, hi, hb, hj, hz, rfl⟩ := fold_arithmetic_eq_some_iff.mp h
    rw [object_arithmetic op (hx ha) (hy hb)]
    simp only [Python.arithmeticOp, hpy.arithmetic op a b i j z hi hj hz, Fallible.map_ok]
  | compare op x y hx hy =>
    obtain ⟨a, b, i, j, ha, hi, hb, hj, rfl⟩ := fold_compare_eq_some_iff.mp h
    rw [object_compare op (hx ha) (hy hb)]
    simp only [Python.compareOp, hpy.compare op a b i j hi hj, Fallible.map_ok]
  | _ => cases h

/-- The lazy meaning of an operation on constants is the folded value, when it has one. -/
theorem python_of_fold {e : Expr AttributeRef} {v : Native} (h : e.fold = some v) :
    e.python σ = .ok v ∨ e.python σ = .error .illTyped := by
  induction e generalizing v with
  | const val =>
    cases h
    exact .inl rfl
  | arithmetic op x y hx hy =>
    obtain ⟨a, b, i, j, z, ha, hi, hb, hj, hz, rfl⟩ := fold_arithmetic_eq_some_iff.mp h
    rcases hx ha with hx | hx
    · rcases hy hb with hy | hy
      · rw [python, hx, hy]
        cases a <;> cases hi <;> cases b <;> cases hj
        · exact .inl (by simp [pythonArithmetic, hz])
        · exact .inr rfl
        · exact .inr rfl
        · exact .inr rfl
      · rw [python, hx, hy]
        exact .inr rfl
    · rw [python, hx]
      exact .inr rfl
  | compare op x y hx hy =>
    obtain ⟨a, b, i, j, ha, hi, hb, hj, rfl⟩ := fold_compare_eq_some_iff.mp h
    rcases hx ha with hx | hx
    · rcases hy hb with hy | hy
      · rw [python, hx, hy]
        cases a <;> cases hi <;> cases b <;> cases hj
        · exact .inl rfl
        · exact .inr rfl
        · exact .inr rfl
        · exact .inr rfl
      · rw [python, hx, hy]
        exact .inr rfl
    · rw [python, hx]
      exact .inr rfl
  | _ => cases h

/-! ## Constants that are recorded -/

/-- A constant that fits is recorded as a value of its own type. -/
theorem isValue_wrapPrimitive {v : Native} {i : ℤ} (hi : v.asInt = some i) {w : Value}
    (h : wrapPrimitive v = .ok w) : v.IsValue w v.width := by
  cases v with
  | int z =>
    simp only [wrapPrimitive] at h
    split_ifs at h with h32 h64
    · cases h
      refine ⟨.int32 (BitVec.ofInt 32 z), rfl, toInt_ofInt_of_inRange (by decide) h32, ?_⟩
      rw [Native.width, if_pos h32]
      rfl
    · cases h
      refine ⟨.int64 (BitVec.ofInt 64 z), rfl, toInt_ofInt_of_inRange (by decide) h64, ?_⟩
      rw [Native.width, if_neg h32]
      rfl
  | bool b =>
    cases h
    rfl
  | float | str => cases hi

theorem width_of_fold {e : Expr AttributeRef} {v : Native} (h : e.fold = some v) :
    e.width σ = v.width := by
  cases e with
  | const val =>
    cases h
    rfl
  | arithmetic op x y =>
    rw [width, h]
    rfl
  | compare op x y =>
    obtain ⟨-, -, i, j, -, -, -, -, rfl⟩ := fold_compare_eq_some_iff.mp h
    rfl
  | _ => cases h

/-- An operation that is not folded has an operand that is not. -/
theorem fold_arithmetic_eq_none {op : ArithmeticOperator} {x y : Expr L}
    (he : (arithmetic op x y).isSimple) (h : (arithmetic op x y).fold = none) :
    x.fold = none ∨ y.fold = none := by
  simp only [isSimple, Bool.and_eq_true] at he
  cases hx : x.fold with
  | none => exact .inl rfl
  | some a =>
    cases hy : y.fold with
    | none => exact .inr rfl
    | some b =>
      obtain ⟨i, hi⟩ := asInt_of_fold he.1.2 hx
      obtain ⟨j, hj⟩ := asInt_of_fold he.2 hy
      have hop : ∃ z, op.integers i j = some z := by
        cases op <;> simp [ArithmeticOperator.integers] at he ⊢
      obtain ⟨z, hz⟩ := hop
      rw [fold_arithmetic_eq_some_iff.mpr ⟨a, b, i, j, z, hx, hi, hy, hj, hz, rfl⟩] at h
      cases h

theorem fold_compare_eq_none {op : CompareOperator} {x y : Expr L}
    (he : (compare op x y).isSimple) (h : (compare op x y).fold = none) :
    x.fold = none ∨ y.fold = none := by
  simp only [isSimple, Bool.and_eq_true] at he
  cases hx : x.fold with
  | none => exact .inl rfl
  | some a =>
    cases hy : y.fold with
    | none => exact .inr rfl
    | some b =>
      obtain ⟨i, hi⟩ := asInt_of_fold he.1.2 hx
      obtain ⟨j, hj⟩ := asInt_of_fold he.2 hy
      rw [fold_compare_eq_some_iff.mpr ⟨a, b, i, j, hx, hi, hy, hj, rfl⟩] at h
      cases h

/-! ## What a node says about its expression -/

/-- The node has the value of the lazy meaning, and none where an attribute is not set. -/
structure Agrees (F : FloatOps) (σ : Valuation) (e : Expr AttributeRef) (n : Node) : Prop where
  value : ∀ v, e.python σ = .ok v → ∃ w, denote F σ n = some w ∧ v.IsValue w (e.width σ)
  unset : e.python σ = .error .unset → denote F σ n = none

/-- The expression is traced to the node, and the node agrees with it. -/
structure Compiled (F : FloatOps) (py : Python) (e : Expr AttributeRef) (n : Node) : Prop where
  object : ∃ o, e.object py retrieved = .ok o ∧ o.wrap = .ok n ∧ (e.fold = none → o = .graphNode n)
  randomFree : n.randomFree
  agrees : ∀ σ, e.NoOverflow σ → e.Agrees F σ n

variable {F : FloatOps} {c x y : Expr AttributeRef} {k n m : Node}

theorem compiled_of_fold (hpy : py.Integers) {e : Expr AttributeRef} (he : e.isSimple)
    {v : Native} (h : e.fold = some v) (hfit : (wrapPrimitive v).isOk) :
    ∃ n, e.Compiled F py n := by
  obtain ⟨i, hi⟩ := asInt_of_fold he h
  cases hw : wrapPrimitive v with
  | error => rw [hw] at hfit; cases hfit
  | ok w =>
    refine ⟨.const w, ⟨.native v, object_of_fold hpy h, by rw [Object.wrap, hw]; rfl, ?_⟩, rfl, ?_⟩
    · intro hnone
      rw [h] at hnone
      cases hnone
    · intro σ _
      constructor
      · intro u hu
        rcases @python_of_fold σ e v h with hv | hv
        · cases hv.symm.trans hu
          rw [width_of_fold h]
          exact ⟨w, rfl, isValue_wrapPrimitive hi hw⟩
        · cases hv.symm.trans hu
      · intro hu
        rcases @python_of_fold σ e v h with hv | hv <;> cases hv.symm.trans hu

theorem compiled_leaf (ref : AttributeRef) : (leaf ref).Compiled F py (.retrieve ref) := by
  refine ⟨⟨_, rfl, rfl, fun _ => rfl⟩, rfl, fun σ _ => ⟨?_, ?_⟩⟩
  · intro v hv
    simp only [python] at hv
    cases hr : σ ref with
    | none => simp [hr] at hv
    | some w =>
      refine ⟨w, hr, ?_⟩
      have hn : w.getVal? nativeOf = some v := by
        cases hg : w.getVal? nativeOf with
        | none => simp [hr, hg] at hv
        | some u => simpa [hr, hg] using hv
      obtain ⟨s, hs, hv⟩ := Option.bind_eq_some_iff.mp hn
      rcases s with (a | a | a | a) | a | a <;> cases hv
      · have hint : w.getVal? Scalar.integer? = some (.int32 a) := by rw [Value.getVal?, hs]; rfl
        exact ⟨_, hint, rfl, by simp [width, hr, hint]⟩
      · have hint : w.getVal? Scalar.integer? = some (.int64 a) := by rw [Value.getVal?, hs]; rfl
        exact ⟨_, hint, rfl, by simp [width, hr, hint]⟩
      · exact show w.getVal? Scalar.bool? = some a by rw [Value.getVal?, hs]; rfl
  · intro h
    simp only [python] at h
    cases hr : σ ref with
    | none => exact hr
    | some w => cases hg : w.getVal? nativeOf <;> simp [hr, hg] at h

/-! ## Operations that are recorded -/

theorem pythonArithmetic_cases {op : ArithmeticOperator} {a b : Native} :
    (∃ i j z, a = .int i ∧ b = .int j ∧ op.integers i j = some z ∧
        pythonArithmetic op a b = .ok (.int z)) ∨
      pythonArithmetic op a b = .error .illTyped := by
  cases a with
  | int i =>
    cases b with
    | int j =>
      cases hz : op.integers i j with
      | none => exact .inr (by simp [pythonArithmetic, hz])
      | some z => exact .inl ⟨i, j, z, rfl, rfl, hz, by simp [pythonArithmetic, hz]⟩
    | _ => exact .inr rfl
  | _ => exact .inr rfl

theorem pythonArithmetic_ne_unset {op : ArithmeticOperator} {a b : Native} :
    pythonArithmetic op a b ≠ .error .unset := by
  intro h
  rcases @pythonArithmetic_cases op a b with ⟨_, _, _, _, _, _, h'⟩ | h' <;> cases h'.symm.trans h

theorem pythonCompare_cases {op : CompareOperator} {a b : Native} :
    (∃ i j, a = .int i ∧ b = .int j ∧ pythonCompare op a b = .ok (.bool (op.holds i j))) ∨
      pythonCompare op a b = .error .illTyped := by
  cases a with
  | int i =>
    cases b with
    | int j => exact .inl ⟨i, j, rfl, rfl, rfl⟩
    | _ => exact .inr rfl
  | _ => exact .inr rfl

theorem pythonCompare_ne_unset {op : CompareOperator} {a b : Native} :
    pythonCompare op a b ≠ .error .unset := by
  intro h
  rcases @pythonCompare_cases op a b with ⟨_, _, _, _, h'⟩ | h' <;> cases h'.symm.trans h

/-- The engine's arithmetic has the exact result when it fits. -/
theorem isValue_arithmetic {op : ArithmeticOperator} {i j z : ℤ} (hz : op.integers i j = some z)
    {v w : Value} {k l : ℕ} (hv : (Native.int i).IsValue v k) (hw : (Native.int j).IsValue w l)
    (hfit : InRange (max k l) z) :
    ∃ u, (binaryOp F op.op v w).toOption = some u ∧ (Native.int z).IsValue u (max k l) := by
  obtain ⟨a, ha, rfl, rfl⟩ := hv
  obtain ⟨b, hb, rfl, rfl⟩ := hw
  have hresult : ∀ arith : ArithOp,
      arith.int (max a.width b.width) a.toInt b.toInt = .ok (BitVec.ofInt _ z) →
      ∃ u, (arithOp F arith v w).toOption = some u ∧
        (Native.int z).IsValue u (max a.width b.width) := by
    intro arith hop
    obtain ⟨n, hn, hnz, hwidth⟩ := arithOp_integers (F := F) ha hb hfit hop
    exact ⟨_, by rw [hn]; rfl, n, by simp, hnz, hwidth⟩
  cases op <;> cases hz
  · exact hresult plus (checked_eq_ok_iff.mpr ⟨hfit, rfl⟩)
  · exact hresult minus (checked_eq_ok_iff.mpr ⟨hfit, rfl⟩)
  · exact hresult times (checked_eq_ok_iff.mpr ⟨hfit, rfl⟩)

/-- The object of an operand that is folded is a constant that `GraphNode` can decide with. -/
theorem Compiled.overloaded (hpy : py.Integers) (hsx : x.isSimple)
    (hfold : x.fold = none ∨ y.fold = none) {a b : Object}
    (ha : x.object py retrieved = .ok a) (hga : x.fold = none → a = .graphNode n)
    (hgb : y.fold = none → b = .graphNode m) :
    (∀ op, Python.arithmeticOverloaded op a b = true) ∧
      ∀ op, Python.compareOverloaded op a b = true := by
  cases hx : x.fold with
  | none =>
    rw [hga hx]
    exact ⟨fun _ => rfl, fun _ => rfl⟩
  | some v =>
    rw [hgb (hfold.resolve_left (by simp [hx]))]
    cases (object_of_fold hpy hx).symm.trans ha
    obtain ⟨i, hi⟩ := asInt_of_fold hsx hx
    cases v with
    | int | bool => exact ⟨fun _ => rfl, fun _ => rfl⟩
    | float | str => cases hi

theorem Compiled.arithmetic (hpy : py.Integers) {op : ArithmeticOperator}
    (he : (arithmetic op x y).isSimple) (hnone : (Expr.arithmetic op x y).fold = none)
    (hx : x.Compiled F py n) (hy : y.Compiled F py m) :
    (Expr.arithmetic op x y).Compiled F py (.binary op.op n m) := by
  obtain ⟨a, ha, hna, hga⟩ := hx.object
  obtain ⟨b, hb, hmb, hgb⟩ := hy.object
  have hsx : x.isSimple = true := by
    simp only [isSimple, Bool.and_eq_true] at he
    exact he.1.2
  have hover := Compiled.overloaded hpy hsx (fold_arithmetic_eq_none he hnone) ha hga hgb
  refine ⟨⟨_, ?_, rfl, fun _ => rfl⟩, ?_, ?_⟩
  · rw [object_arithmetic op ha hb]
    exact Python.arithmeticOp_of_overloaded hna hmb (hover.1 op)
  · exact Bool.and_eq_true_iff.mpr ⟨hx.randomFree, hy.randomFree⟩
  · intro σ hσ
    obtain ⟨hnx, hrest⟩ := hσ hnone
    have hagx := hx.agrees σ hnx
    constructor
    · intro v hv
      have hv' := hv
      simp only [python] at hv
      obtain ⟨a', ha', hv⟩ := Fallible.result_bind_eq_ok_iff.mp hv
      obtain ⟨b', hb', hv⟩ := Fallible.result_bind_eq_ok_iff.mp hv
      rcases @pythonArithmetic_cases op a' b' with ⟨i, j, z, rfl, rfl, hz, h⟩ | h
      · cases h.symm.trans hv
        obtain ⟨hny, hfit⟩ := hrest _ ha'
        obtain ⟨w₁, hw₁, hi⟩ := hagx.value _ ha'
        obtain ⟨w₂, hw₂, hj⟩ := (hy.agrees σ hny).value _ hb'
        obtain ⟨u, hu, hval⟩ := isValue_arithmetic (F := F) hz hi hj (hfit z hv')
        refine ⟨u, by rw [denote, hw₁, Option.bind_some, hw₂, Option.bind_some, hu], ?_⟩
        rw [width, hnone]
        exact hval
      · cases h.symm.trans hv
    · intro hv
      simp only [python] at hv
      rcases Fallible.result_bind_eq_error_iff.mp hv with hv | ⟨a', ha', hv⟩
      · rw [denote, hagx.unset hv]
        rfl
      · rcases Fallible.result_bind_eq_error_iff.mp hv with hv | ⟨b', hb', hv⟩
        · rw [denote, (hy.agrees σ (hrest _ ha').1).unset hv]
          cases denote F σ n <;> rfl
        · exact absurd hv pythonArithmetic_ne_unset

theorem Compiled.compare (hpy : py.Integers) {op : CompareOperator}
    (he : (compare op x y).isSimple) (hnone : (Expr.compare op x y).fold = none)
    (hx : x.Compiled F py n) (hy : y.Compiled F py m) :
    ∃ k, (Expr.compare op x y).Compiled F py k := by
  obtain ⟨a, ha, hna, hga⟩ := hx.object
  obtain ⟨b, hb, hmb, hgb⟩ := hy.object
  have hs := he
  simp only [isSimple, Bool.and_eq_true, decide_eq_true_eq] at hs
  have hover := (Compiled.overloaded hpy hs.1.2 (fold_compare_eq_none he hnone) ha hga hgb).2 op
  obtain ⟨k, hk⟩ := @Python.compareOp_graphNode py a b op hs.1.1 n m hna hmb hover
  have hdenote : ∀ σ, denote F σ k =
      (denote F σ n).bind fun v => (denote F σ m).bind fun w => op.apply F v w := by
    intro σ
    exact denotes_graphNode_iff.mp
      (Python.compareOp_denotes ⟨n, hna, rfl⟩ ⟨m, hmb, rfl⟩ hover hk)
  refine ⟨k, ⟨_, ?_, rfl, fun _ => rfl⟩, ?_, ?_⟩
  · rw [object_compare op ha hb]
    exact hk
  · rcases @Python.compareOp_of_overloaded py a b op n m hna hmb hover with h | h <;>
      rw [hk, Except.ok.injEq] at h
    · have hfree := op.randomFree_overload hx.randomFree hy.randomFree
      rwa [← h] at hfree
    · have hfree := op.reflected.randomFree_overload hy.randomFree hx.randomFree
      rwa [← h] at hfree
  · intro σ hσ
    have hagx := hx.agrees σ hσ.1
    constructor
    · intro v hv
      simp only [python] at hv
      obtain ⟨a', ha', hv⟩ := Fallible.result_bind_eq_ok_iff.mp hv
      obtain ⟨b', hb', hv⟩ := Fallible.result_bind_eq_ok_iff.mp hv
      rcases @pythonCompare_cases op a' b' with ⟨i, j, rfl, rfl, h⟩ | h
      · cases h.symm.trans hv
        obtain ⟨w₁, hw₁, i', hi', hi, -⟩ := hagx.value _ ha'
        obtain ⟨w₂, hw₂, j', hj', hj, -⟩ := (hy.agrees σ (hσ.2 _ ha')).value _ hb'
        refine ⟨setVal (.bool (op.holds i j)), ?_, by simp [Native.IsValue, Scalar.bool?]⟩
        rw [hdenote, hw₁, Option.bind_some, hw₂, Option.bind_some,
          op.apply_of_holds ⟨i', hi', hi⟩ ⟨j', hj', hj⟩]
      · cases h.symm.trans hv
    · intro hv
      simp only [python] at hv
      rw [hdenote]
      rcases Fallible.result_bind_eq_error_iff.mp hv with hv | ⟨a', ha', hv⟩
      · rw [hagx.unset hv]
        rfl
      · rcases Fallible.result_bind_eq_error_iff.mp hv with hv | ⟨b', hb', hv⟩
        · rw [(hy.agrees σ (hσ.2 _ ha')).unset hv]
          cases denote F σ n <;> rfl
        · exact absurd hv pythonCompare_ne_unset

/-- The switch restores the laziness: the branch that is not selected has no part in the value. -/
theorem Compiled.ternary (hc : c.Compiled F py k) (hx : x.Compiled F py n)
    (hy : y.Compiled F py m) : (Expr.ternary c x y).Compiled F py (.switch k n m) := by
  obtain ⟨d, hd, hkd, -⟩ := hc.object
  obtain ⟨a, ha, hna, -⟩ := hx.object
  obtain ⟨b, hb, hmb, -⟩ := hy.object
  refine ⟨⟨_, ?_, rfl, fun _ => rfl⟩, ?_, ?_⟩
  · refine (object_switch hd ha hb).trans ?_
    simp only [Fallible.ok_bind, Plotter.switch, hkd, hna, hmb]
    rfl
  · simp only [Node.randomFree, hc.randomFree, hx.randomFree, hy.randomFree, Bool.and_self]
  · intro σ hσ
    have hagc := hc.agrees σ hσ.1
    have hbranch : ∀ t, c.python σ = .ok (.bool t) →
        (Expr.ternary c x y).python σ = (if t then x.python σ else y.python σ) ∧
        denote F σ (.switch k n m) = (if t then denote F σ n else denote F σ m) ∧
        (Expr.ternary c x y).width σ = (if t then x.width σ else y.width σ) := by
      intro t ht
      obtain ⟨w, hw, hval⟩ := hagc.value _ ht
      have hbool : w.getVal? Scalar.bool? = some t := hval
      rw [python, ht, denote, hw, width, ht]
      cases t <;> simp [pythonTernary, select, hbool]
    cases hp : c.python σ with
    | error stop =>
      have hstop : (Expr.ternary c x y).python σ = .error stop := by
        rw [python, hp]
        rfl
      constructor
      · intro v hv
        cases hstop.symm.trans hv
      · intro hv
        cases hstop.symm.trans hv
        rw [denote, hagc.unset hp]
        rfl
    | ok t =>
      cases t with
      | bool t =>
        obtain ⟨hpy', hden, hwidth⟩ := hbranch t hp
        cases t with
        | true =>
          have hag := hx.agrees σ (hσ.2.1 hp)
          refine ⟨fun v hv => ?_, fun hv => ?_⟩
          · rw [hden, hwidth]
            exact hag.value v (hpy'.symm.trans hv)
          · rw [hden]
            exact hag.unset (hpy'.symm.trans hv)
        | false =>
          have hag := hy.agrees σ (hσ.2.2 hp)
          refine ⟨fun v hv => ?_, fun hv => ?_⟩
          · rw [hden, hwidth]
            exact hag.value v (hpy'.symm.trans hv)
          · rw [hden]
            exact hag.unset (hpy'.symm.trans hv)
      | _ =>
        have hill : (Expr.ternary c x y).python σ = .error .illTyped := by
          rw [python, hp]
          rfl
        refine ⟨fun v hv => ?_, fun hv => ?_⟩ <;> cases hill.symm.trans hv

/-- **Every simple expression is compiled** when its recorded constants fit. -/
theorem compiled_of_isSimple (hpy : py.Integers) {e : Expr AttributeRef} (he : e.isSimple)
    (hfit : e.constantsFit) : ∃ n, e.Compiled F py n := by
  induction e with
  | const val => exact compiled_of_fold hpy he rfl hfit
  | leaf ref => exact ⟨_, compiled_leaf ref⟩
  | arithmetic op x y hx hy =>
    have hs := he
    simp only [isSimple, Bool.and_eq_true] at hs
    cases h : (arithmetic op x y).fold with
    | some v =>
      rw [constantsFit, h] at hfit
      exact compiled_of_fold hpy he h hfit
    | none =>
      rw [constantsFit, h] at hfit
      obtain ⟨hfx, hfy⟩ := Bool.and_eq_true_iff.mp hfit
      obtain ⟨n, hn⟩ := hx hs.1.2 hfx
      obtain ⟨m, hm⟩ := hy hs.2 hfy
      exact ⟨_, .arithmetic hpy he h hn hm⟩
  | compare op x y hx hy =>
    have hs := he
    simp only [isSimple, Bool.and_eq_true] at hs
    cases h : (compare op x y).fold with
    | some v =>
      obtain ⟨-, -, i, j, -, -, -, -, rfl⟩ := fold_compare_eq_some_iff.mp h
      exact compiled_of_fold hpy he h rfl
    | none =>
      have hfits : x.constantsFit = true ∧ y.constantsFit = true := by
        rcases fold_compare_eq_none he h with hnone | hnone <;>
          simpa [constantsFit, hnone] using hfit
      obtain ⟨n, hn⟩ := hx hs.1.2 hfits.1
      obtain ⟨m, hm⟩ := hy hs.2 hfits.2
      exact Compiled.compare hpy he h hn hm
  | ternary c x y hc hx hy =>
    simp only [isSimple, constantsFit, Bool.and_eq_true] at he hfit
    obtain ⟨k, hk⟩ := hc he.1.1 hfit.1.1
    obtain ⟨n, hn⟩ := hx he.1.2 hfit.1.2
    obtain ⟨m, hm⟩ := hy he.2 hfit.2
    exact ⟨_, hk.ternary hn hm⟩
  | _ => cases he

/-- **Ternaries keep their meaning.** The node traced from the transformed expression has, on
every store on which no selected operation overflows or gets operands of another type, the value
of the lazy semantics. It fails exactly where an attribute that is not set is read on the
selected path. The constants that are recorded have to fit. -/
theorem ternary_preserved (hpy : py.Integers) {e : Expr AttributeRef} (he : e.isSimple)
    (hfit : e.constantsFit) :
    ∃ o n, e.transformTernary.object py retrieved = .ok o ∧ o.wrap = .ok n ∧
      ∀ s : Env Stores, s.store.Wf → e.NoOverflow s.store.valuation →
        e.python s.store.valuation ≠ .error .illTyped →
        (∀ v, e.python s.store.valuation = .ok v → ∃ w, (evaluateNode F n s).1 = .ok w ∧
          v.IsValue w (e.width s.store.valuation)) ∧
        ((∃ fault, (evaluateNode F n s).1 = .error fault) ↔
          e.python s.store.valuation = .error .unset) := by
  obtain ⟨n, hn⟩ := @compiled_of_isSimple py F hpy e he hfit
  obtain ⟨o, ho, hwrap, -⟩ := hn.object
  refine ⟨o, n, by rw [object, trace_transformTernary]; exact ho, hwrap, ?_⟩
  intro s hs hover hill
  have hag := hn.agrees _ hover
  have heval := Stores.evaluateNode_denote F hn.randomFree hs
  have hvalue : ∀ v, e.python s.store.valuation = .ok v → ∃ w, (evaluateNode F n s).1 = .ok w ∧
      v.IsValue w (e.width s.store.valuation) := by
    intro v hv
    obtain ⟨w, hw, hval⟩ := hag.value v hv
    exact ⟨w, Fallible.toOption_eq_some_iff.mp (heval.trans hw), hval⟩
  refine ⟨hvalue, ?_⟩
  constructor
  · rintro ⟨fault, hfault⟩
    cases hp : e.python s.store.valuation with
    | ok v =>
      obtain ⟨w, hw, -⟩ := hvalue v hp
      cases hw.symm.trans hfault
    | error stop =>
      cases stop with
      | unset => rfl
      | illTyped => exact absurd hp hill
  · intro hp
    cases hr : (evaluateNode F n s).1 with
    | error fault => exact ⟨fault, rfl⟩
    | ok w =>
      rw [hag.unset hp, hr] at heval
      cases heval

end Expr

/-- Python's integers, without its other types. -/
def Python.integers : Python where
  arithmetic op x y := match x, y with
    | .native a, .native b => (do
        let i ← a.asInt
        let j ← b.asInt
        Native.int <$> op.integers i j).elim (.error .typeError) .ok
    | _, _ => .error .typeError
  negative _ := .error .typeError
  positive _ := .error .typeError
  compare op a b := (do
    let i ← a.asInt
    let j ← b.asInt
    some (Native.bool (op.holds i j))).elim (.error .typeError) .ok
  compareMessage _ _ _ := .error .typeError

theorem Python.integers_integers : Python.integers.Integers := by
  constructor
  · intro op a b i j z hi hj hz
    simp [integers, hi, hj, hz]
  · intro op a b i j hi hj
    simp [integers, hi, hj]

namespace Expr

/-- `1 if 2 < 3 else x` on stores where `x` is not set. -/
theorem ternary_preserved_unselected : ∃ (n : Node) (w : Value),
    (evaluateNode default n (⟨Stores.new, 0⟩ : Env Stores)).1 = .ok w ∧ w.Holds 1 := by
  obtain ⟨o, n, -, -, hn⟩ := @ternary_preserved Python.integers default Python.integers_integers
    (.ternary (.compare .lt (.const (.int 2)) (.const (.int 3))) (.const (.int 1))
      (.leaf ⟨1, "c", "a"⟩)) (by decide) (by decide)
  obtain ⟨w, hw, i, hi, hz, -⟩ := (hn ⟨Stores.new, 0⟩ Stores.wf_new
    ⟨⟨trivial, fun _ _ => trivial⟩, fun _ => trivial, fun _ => trivial⟩ (by decide)).1 (.int 1) rfl
  exact ⟨n, w, hw, i, hi, hz⟩

/-- A constant of more than 64 bits in the branch that is not selected stops the tracing. -/
theorem ternary_fails : ¬ ∀ (F : FloatOps) (py : Python) (e : Expr AttributeRef) (s : Env Stores),
    py.Integers → e.isSimple → s.store.Wf → e.NoOverflow s.store.valuation →
    e.python s.store.valuation ≠ .error .illTyped →
    ∃ o n, e.transformTernary.object py retrieved = .ok o ∧ o.wrap = .ok n ∧
      ∀ v, e.python s.store.valuation = .ok v → ∃ w, (evaluateNode F n s).1 = .ok w ∧
        v.IsValue w (e.width s.store.valuation) := by
  intro h
  obtain ⟨o, n, ho, -⟩ := h default Python.integers
    (.ternary (.const (.bool true)) (.const (.int 1)) (.const (.int (2 ^ 64)))) ⟨Stores.new, 0⟩
    Python.integers_integers rfl Stores.wf_new ⟨trivial, fun _ => trivial, fun _ => trivial⟩
    (by decide)
  cases ho

end Expr
end Bentobox.Sdk
