import Bentobox.Engine.Atomicity
import Bentobox.Engine.Locality

/-!
# Undefined arithmetic

When running a graph stays clear of what C++ leaves undefined: at every operator
that is reached the integer operands have to be in the operator's domain, and a
floating-point number stored in an integer attribute has to fit once its fraction is
dropped. The domains are stated in exact arithmetic on the mathematical integers.
-/
namespace Bentobox

open AttributeStore

/-! ## Domains of the operations -/

/-- The integer operands of width `w` on which an operation is defined. -/
def IntegerDomain (op : BinaryOp) (w : ℕ) (x y : ℤ) : Prop :=
  match op with
  | .add => InRange w (x + y)
  | .sub => InRange w (x - y)
  | .mul => InRange w (x * y)
  | .div | .mod => y ≠ 0 ∧ InRange w (x.tdiv y)
  | _ => True

/-- The operands on which an operation of two operands is defined. -/
def BinaryDefined (F : FloatOps) (op : BinaryOp) (x y : Value) : Prop :=
  match x.getVal? Scalar.number?, y.getVal? Scalar.number? with
  | some a, some b =>
    match promote F a b with
    | .int32 a b => IntegerDomain op 32 a.toInt b.toInt
    | .int64 a b => IntegerDomain op 64 a.toInt b.toInt
    | .float32 _ _ | .float64 _ _ => True
  | _, _ => True

/-- The operand on which an operation of one operand is defined. -/
def UnaryDefined (op : UnaryOp) (x : Value) : Prop :=
  match op, x.getVal? Scalar.number? with
  | .abs, some (.int32 v) => InRange 32 v.toInt.natAbs
  | .abs, some (.int64 v) => InRange 64 v.toInt.natAbs
  | _, _ => True

/-- A floating-point number has an integer part of `w` bits. -/
def FloatFits {v : ℕ} (f : FloatFormat v) (w : ℕ) (x : BitVec v) : Prop :=
  ∃ z, f.trunc x = some z ∧ InRange w z

/-- The numbers that can be cast to a type. -/
def CastDefined (F : FloatOps) (t : TypePrimitive) (x : Number) : Prop :=
  match t, x with
  | .int32, .float32 v => FloatFits F.f32 32 v
  | .int32, .float64 v => FloatFits F.f64 32 v
  | .int64, .float32 v => FloatFits F.f32 64 v
  | .int64, .float64 v => FloatFits F.f64 64 v
  | _, _ => True

private theorem map_eq_undefined_iff {α β : Type} {f : α → β} {r : Except Fault α} :
    f <$> r = .error .undefined ↔ r = .error .undefined := Fallible.map_eq_error_iff

theorem arithOp_undefined_iff (F : FloatOps) (op : ArithOp) {x y : Value} :
    arithOp F op x y = .error .undefined ↔ ∃ a b, x.getVal? Scalar.number? = some a ∧
      y.getVal? Scalar.number? = some b ∧ op.apply F a b = .error .undefined := by
  simp only [arithOp, map_eq_undefined_iff, runFnWithVal₂, runFnWithVal_eq_undefined_iff]
  constructor
  · rintro ⟨a, ha, b, hb, h⟩; exact ⟨a, b, ha, hb, h⟩
  · rintro ⟨a, b, ha, hb, h⟩; exact ⟨a, ha, b, hb, h⟩

/-- An arithmetic operation is undefined where its integer operation is. -/
theorem arithOp_defined_iff (F : FloatOps) {op : ArithOp} {bop : BinaryOp}
    (hop : ∀ w a b, op.int w a b = .error .undefined ↔ ¬ IntegerDomain bop w a b) (x y : Value) :
    arithOp F op x y ≠ .error .undefined ↔ BinaryDefined F bop x y := by
  rw [Ne, arithOp_undefined_iff]
  rw [BinaryDefined]
  cases hx : x.getVal? Scalar.number? with
  | none => simp
  | some a =>
    cases hy : y.getVal? Scalar.number? with
    | none => simp
    | some b =>
      simp only [Option.some.injEq, exists_and_left, exists_eq_left', ArithOp.apply]
      cases promote F a b with
      | int32 a b => simp only [map_eq_undefined_iff, hop, not_not]
      | int64 a b => simp only [map_eq_undefined_iff, hop, not_not]
      | float32 a b => simp
      | float64 a b => simp

private theorem checkedOp (bop : BinaryOp) {z : ℕ → ℤ → ℤ → ℤ}
    (hdom : ∀ w a b, IntegerDomain bop w a b ↔ InRange w (z w a b)) (w : ℕ) (a b : ℤ) :
    checked w (z w a b) = .error .undefined ↔ ¬ IntegerDomain bop w a b := by
  rw [checked_eq_undefined_iff, hdom]

theorem quotient_undefined_iff (w : ℕ) (a b : ℤ) :
    quotient.int w a b = .error .undefined ↔ ¬ IntegerDomain .div w a b := by
  simp only [quotient, IntegerDomain]
  split_ifs with hb
  · simp [hb]
  · rw [checked_eq_undefined_iff]
    simp [hb]

theorem remainder_undefined_iff (w : ℕ) (a b : ℤ) :
    remainder w a b = .error .undefined ↔ ¬ IntegerDomain .mod w a b := by
  simp only [remainder, IntegerDomain]
  split_ifs with h
  · simp only [true_iff]
    rintro ⟨hb, hr⟩
    rcases h with h | h
    · exact hb h
    · exact h hr
  · simp only [false_iff, not_not]
    exact ⟨fun hb => h (.inl hb), by_contra fun hr => h (.inr hr)⟩

private theorem modulo_undefined_iff (a b : Integer) :
    modulo a b = .error .undefined ↔ ¬ match a, b with
      | .int32 a, .int32 b => IntegerDomain .mod 32 a.toInt b.toInt
      | a, b => IntegerDomain .mod 64 a.toInt b.toInt := by
  cases a <;> cases b <;>
    simp only [modulo, map_eq_undefined_iff, remainder_undefined_iff]

private theorem modulo_scalars_undefined_iff (F : FloatOps) (a b : Scalar) :
    (∃ i j, a.integer? = some i ∧ b.integer? = some j ∧ modulo i j = .error .undefined) ↔
      ¬ match a.number?, b.number? with
        | some a, some b =>
          match promote F a b with
          | .int32 a b => IntegerDomain .mod 32 a.toInt b.toInt
          | .int64 a b => IntegerDomain .mod 64 a.toInt b.toInt
          | .float32 _ _ | .float64 _ _ => True
        | _, _ => True := by
  rcases a with (a | a | a | a) | a | a <;> rcases b with (b | b | b | b) | b | b <;>
    simp [Scalar.integer?, Scalar.number?, promote, modulo_undefined_iff, Integer.toInt,
      BitVec.toInt_signExtend_of_le]

theorem modOp_defined_iff (F : FloatOps) (x y : Value) :
    modOp x y ≠ .error .undefined ↔ BinaryDefined F .mod x y := by
  have hmod : modOp x y = .error .undefined ↔ ∃ a b, x.getVal? Scalar.integer? = some a ∧
      y.getVal? Scalar.integer? = some b ∧ modulo a b = .error .undefined := by
    simp only [modOp, map_eq_undefined_iff, runFnWithVal₂, runFnWithVal_eq_undefined_iff]
    constructor
    · rintro ⟨a, ha, b, hb, h⟩; exact ⟨a, b, ha, hb, h⟩
    · rintro ⟨a, b, ha, hb, h⟩; exact ⟨a, ha, b, hb, h⟩
  rw [Ne, hmod]
  unfold BinaryDefined Value.getVal?
  cases x.getPrimitive.scalar? with
  | none => simp
  | some a =>
    cases y.getPrimitive.scalar? with
    | none => simp
    | some b =>
      simp only [Option.bind_some]
      rw [modulo_scalars_undefined_iff F, not_not]

/-- An operation without a condition on integers is defined everywhere. -/
private theorem binaryDefined_of_total (F : FloatOps) {op : BinaryOp}
    (h : ∀ w a b, IntegerDomain op w a b) (x y : Value) : BinaryDefined F op x y := by
  rw [BinaryDefined]
  split
  · split
    · exact h _ _ _
    · exact h _ _ _
    · trivial
    · trivial
  · trivial

private theorem compareOp_ne_undefined (F : FloatOps) (op : CompareOp) (x y : Value) :
    compareOp F op x y ≠ .error .undefined := by
  simp [compareOp, map_eq_undefined_iff, runFnWithVal₂, runFnWithVal_eq_undefined_iff]

private theorem logicalOp_ne_undefined (name : String) (fn : Bool → Bool → Bool) (x y : Value) :
    logicalOp name fn x y ≠ .error .undefined := by
  rw [logicalOp]
  split <;> simp [Fault.domainError]

private theorem eqOp_ne_undefined (F : FloatOps) (x y : Value) :
    eqOp F x y ≠ .error .undefined := by
  rw [eqOp]
  split
  · exact compareOp_ne_undefined F _ x y
  · simp [map_eq_undefined_iff, runFnWithVal₂, runFnWithVal_eq_undefined_iff]
  · simp [map_eq_undefined_iff, runFnWithVal₂, runFnWithVal_eq_undefined_iff]
  · simp [Fault.domainError]

/-- **An operation of two operands** is undefined exactly outside its domain. -/
theorem binaryOp_defined_iff (F : FloatOps) (op : BinaryOp) (x y : Value) :
    binaryOp F op x y ≠ .error .undefined ↔ BinaryDefined F op x y := by
  cases op with
  | add => exact arithOp_defined_iff F (checkedOp .add fun _ _ _ => Iff.rfl) x y
  | sub => exact arithOp_defined_iff F (checkedOp .sub fun _ _ _ => Iff.rfl) x y
  | mul => exact arithOp_defined_iff F (checkedOp .mul fun _ _ _ => Iff.rfl) x y
  | div => exact arithOp_defined_iff F quotient_undefined_iff x y
  | max => exact arithOp_defined_iff F (fun _ _ _ => by simp [larger, IntegerDomain]) x y
  | min => exact arithOp_defined_iff F (fun _ _ _ => by simp [smaller, IntegerDomain]) x y
  | mod => exact modOp_defined_iff F x y
  | pow =>
    refine iff_of_true ?_ (binaryDefined_of_total F (by intros; trivial) x y)
    simp [binaryOp, powOp, map_eq_undefined_iff, runFnWithVal₂, runFnWithVal_eq_undefined_iff]
  | and | or =>
    exact iff_of_true (logicalOp_ne_undefined _ _ x y)
      (binaryDefined_of_total F (by intros; trivial) x y)
  | eq =>
    exact iff_of_true (eqOp_ne_undefined F x y)
      (binaryDefined_of_total F (by intros; trivial) x y)
  | gt | lt | ge | le =>
    exact iff_of_true (compareOp_ne_undefined F _ x y)
      (binaryDefined_of_total F (by intros; trivial) x y)

private theorem absOp_defined_iff (F : FloatOps) (x : Value) :
    absOp F x ≠ .error .undefined ↔ UnaryDefined .abs x := by
  rw [Ne, absOp, map_eq_undefined_iff, runFnWithVal_eq_undefined_iff]
  unfold UnaryDefined
  cases x.getVal? Scalar.number? with
  | none => simp
  | some a => cases a <;> simp [Number.absolute, map_eq_undefined_iff]

private theorem guardedOp_ne_undefined (F : FloatOps)
    (fn : {w : ℕ} → FloatFormat w → BitVec w → BitVec w) (what : String) (x : Value) :
    guardedOp F fn what x ≠ .error .undefined := by
  rw [Ne, guardedOp, map_eq_undefined_iff, runFnWithVal_eq_undefined_iff]
  rintro ⟨a, -, h⟩
  split_ifs at h
  cases h

/-- **An operation of one operand** is undefined exactly outside its domain. -/
theorem unaryOp_defined_iff (F : FloatOps) (op : UnaryOp) (x : Value) :
    unaryOp F op x ≠ .error .undefined ↔ UnaryDefined op x := by
  cases op with
  | abs => exact absOp_defined_iff F x
  | arcsin | arccos => exact iff_of_true (guardedOp_ne_undefined F _ _ x) (by simp [UnaryDefined])
  | not =>
    refine iff_of_true ?_ (by simp [UnaryDefined])
    simp only [unaryOp, notOp]
    split <;> simp [Fault.domainError]
  | _ =>
    refine iff_of_true ?_ (by simp [UnaryDefined])
    simp [unaryOp, floorOp, ceilOp, sinOp, cosOp, tanOp, arcTanOp, cmathOp, map_eq_undefined_iff,
      runFnWithVal_eq_undefined_iff]

/-! ## Storing -/

/-- Storing a value in an attribute casts it to a type it fits in, unless it is rejected. -/
def StoreDefined (F : FloatOps) (compDef : ComponentDef) (attrName : String) (v : Value) : Prop :=
  ∀ t x, UserComponent.checkValue compDef attrName v = .ok t →
    v.getVal? Scalar.number? = some x → CastDefined F t.getPrimitive x

theorem floatFormat_toInt_defined_iff {v : ℕ} (f : FloatFormat v) (w : ℕ) (x : BitVec v) :
    f.toInt w x ≠ .error .undefined ↔ FloatFits f w x := by
  rw [FloatFormat.toInt, FloatFits]
  cases f.trunc x <;> simp

/-- A cast to a numeric type is undefined where the number does not fit. -/
theorem convert_defined_iff (F : FloatOps) {t : TypePrimitive} (ht : t ∈ numericTypes)
    (x : Number) : UserComponent.convert F x t ≠ .error .undefined ↔ CastDefined F t x := by
  cases t with
  | int32 | int64 =>
    rw [Ne, UserComponent.convert, map_eq_undefined_iff]
    cases x with
    | int32 | int64 => simp [Number.toInt32, Number.toInt64, CastDefined]
    | float32 | float64 => exact floatFormat_toInt_defined_iff _ _ _
  | float32 | float64 => simp [UserComponent.convert, CastDefined]
  | _ => simp [numericTypes] at ht

private theorem valHasCorrectDataType_ne_undefined (v : Value) :
    valHasCorrectDataType v ≠ .error .undefined := by
  rw [valHasCorrectDataType]
  split
  · simp
  · rw [runFnWithValType]
    split_ifs
    · simp [Fault.logicError]
    · simp [runFnWithVal_eq_undefined_iff]
    · simp [Fault.runtimeError]

/-- The name of the type is only asked for when a native value is there. -/
private theorem checkValue_ne_undefined (compDef : ComponentDef) (a : String) (v : Value) :
    UserComponent.checkValue compDef a v ≠ .error .undefined := by
  rw [UserComponent.checkValue]
  split
  · simp [Fault.outOfRange]
  · simp [Fault.runtimeError]
  next t dt _ hd =>
    split
    · simp
    next hfalse =>
      have hset : ∃ s, v.getVal? Scalar.any? = some s := by
        simp only [valHasCorrectDataType, hd, runFnWithValType] at hfalse
        split_ifs at hfalse
        obtain ⟨s, hs, -⟩ := runFnWithVal_eq_ok_iff.mp hfalse
        exact ⟨s, hs⟩
      obtain ⟨s, hs⟩ := hset
      have hname : ∃ n, valStoredTypeName v = .ok n := by
        rcases v with ⟨d, _ | p | ps⟩
        · cases hs
        · cases p <;> first | exact ⟨_, rfl⟩ | cases hs
        · cases hs
      obtain ⟨n, hn⟩ := hname
      simp [hn, Fault.runtimeError]
    next e he =>
      rintro h
      rw [Except.error.injEq] at h
      exact valHasCorrectDataType_ne_undefined v (h ▸ he)

/-- A type that is not numeric casts nothing. -/
private theorem castDefined_of_notMem (F : FloatOps) {t : TypePrimitive} (ht : t ∉ numericTypes)
    (x : Number) : CastDefined F t x := by
  cases t with
  | int32 | int64 => simp [numericTypes] at ht
  | _ => simp [CastDefined]

private theorem valueToSet_defined_iff (F : FloatOps) (t : DataType) (a : String) (v : Value) :
    UserComponent.valueToSet F t a v ≠ .error .undefined ↔
      ∀ x, v.getVal? Scalar.number? = some x → CastDefined F t.getPrimitive x := by
  rw [UserComponent.valueToSet]
  split_ifs with harr hnum hty
  · have ht : t.getPrimitive ∉ numericTypes := by
      cases t <;> simp_all [DataType.hasArray, DataType.getPrimitive, numericTypes]
    exact iff_of_true (by simp) fun x _ => castDefined_of_notMem F ht x
  · obtain ⟨ht, hx⟩ := hnum
    obtain ⟨x, hx⟩ := Option.isSome_iff_exists.mp hx
    have hrun : runFnWithVal Scalar.number? v (fun x =>
        runFnWithValType numericTypes t (UserComponent.convert F x)) =
        UserComponent.convert F x t.getPrimitive := by
      simp [runFnWithVal, hx, runFnWithValType, harr, ht]
    rw [hrun, Ne, map_eq_undefined_iff]
    simp only [hx, Option.some.injEq, forall_eq']
    exact convert_defined_iff F ht x
  · have ht : ∀ x, v.getVal? Scalar.number? = some x → t.getPrimitive ∉ numericTypes :=
      fun x hx ht => hnum ⟨ht, by rw [hx]; rfl⟩
    exact iff_of_true (by simp) fun x hx => castDefined_of_notMem F (ht x hx) x
  · have ht : ∀ x, v.getVal? Scalar.number? = some x → t.getPrimitive ∉ numericTypes :=
      fun x hx ht => hnum ⟨ht, by rw [hx]; rfl⟩
    exact iff_of_true (by simp [Fault.runtimeError]) fun x hx => castDefined_of_notMem F (ht x hx) x

theorem storedValue_defined_iff (F : FloatOps) (compDef : ComponentDef) (a : String) (v : Value) :
    UserComponent.storedValue F compDef a v ≠ .error .undefined ↔ StoreDefined F compDef a v := by
  rw [UserComponent.storedValue, StoreDefined]
  cases hc : UserComponent.checkValue compDef a v with
  | error e =>
    rw [Fallible.error_bind]
    refine iff_of_true (fun h => checkValue_ne_undefined compDef a v ?_) (by rintro t x ⟨⟩)
    rw [hc, Except.error.inj h]
  | ok t =>
    rw [Fallible.ok_bind, valueToSet_defined_iff]
    constructor
    · rintro h t' x ⟨⟩ hx; exact h x hx
    · intro h x hx; exact h t x rfl hx

/-! ## Graphs -/

variable (F : FloatOps)

/-- Every operator that evaluating a node comes to is run on operands it is defined on. -/
def NodeDefined : Node → Env Stores → Prop
  | .notSet, _ | .const _, _ | .retrieve _, _ | .mutate _ _, _ => True
  | .switch conditionNode trueNode falseNode, s =>
    NodeDefined conditionNode s ∧ ∀ c s', evaluateNode F conditionNode s = (.ok c, s') →
      (c.getVal? Scalar.bool? = some true → NodeDefined trueNode s') ∧
      (c.getVal? Scalar.bool? = some false → NodeDefined falseNode s')
  | .unary op x, s =>
    NodeDefined x s ∧ ∀ v s', evaluateNode F x s = (.ok v, s') → UnaryDefined op v
  | .binary op x y, s =>
    NodeDefined x s ∧ ∀ v s', evaluateNode F x s = (.ok v, s') →
      NodeDefined y s' ∧ ∀ w s'', evaluateNode F y s' = (.ok w, s'') → BinaryDefined F op v w
  | .random low high, s =>
    NodeDefined low s ∧ ∀ v s', evaluateNode F low s = (.ok v, s') → NodeDefined high s'

/-- The node of an output is defined and its value can be stored. -/
def MutateDefined (o : Mutate) (s : Env Stores) : Prop :=
  NodeDefined F o.toNode s ∧ ∀ v s', evaluateNode F o.toNode s = (.ok v, s') →
    ∀ c, s'.store.component o.mutateAttr.component o.mutateAttr.entityId = .ok c →
      StoreDefined F c.compDef o.mutateAttr.attributeName v

/-- Every output that the run comes to is defined in the state it is run in. -/
def OutputsDefined : List Mutate → Env Stores → Prop
  | [], _ => True
  | o :: os, s => MutateDefined F o s ∧ ∀ s', mutateOp F o s = (.ok (), s') → OutputsDefined os s'

/-- A sequence is defined when its first part is and what follows a result of it is. -/
private theorem bind_defined_iff {σ α β : Type} {m : Fallible σ Fault α}
    {f : α → Fallible σ Fault β} {s : σ} :
    ((m >>= f) s).1 ≠ .error .undefined ↔ (m s).1 ≠ .error .undefined ∧
      ∀ a s', m s = (.ok a, s') → (f a s').1 ≠ .error .undefined := by
  rw [Fallible.run_bind]
  rcases h : m s with ⟨e | a, s'⟩ <;> simp

private theorem assign_defined_iff (ref : AttributeRef) (v : Value) (s : Stores) :
    (assign F ref v s : Except Fault Unit × Stores).1 ≠ .error .undefined ↔
      ∀ c, s.component ref.component ref.entityId = .ok c →
        StoreDefined F c.compDef ref.attributeName v := by
  change (Stores.getComponent _ _ _ s).1 ≠ _ ↔ _
  rw [Stores.getComponent_fst]
  cases hc : s.component ref.component ref.entityId with
  | error e =>
    rw [Fallible.error_bind]
    refine iff_of_true (fun h => ?_) (by rintro c ⟨⟩)
    refine Stores.component_ne_undefined s ref.component ref.entityId ?_
    rw [hc, Except.error.inj h]
  | ok c =>
    obtain ⟨vs, h, -⟩ := UserComponent.setValue_spec F ref.attributeName v c
    rw [Fallible.ok_bind, h, Ne, map_eq_undefined_iff, ← Ne, storedValue_defined_iff]
    simp

private theorem choose_defined_iff {c : Value} {m₁ m₂ : Eval Stores Value} {s : Env Stores} :
    (choose c m₁ m₂ s).1 ≠ .error .undefined ↔
      (c.getVal? Scalar.bool? = some true → (m₁ s).1 ≠ .error .undefined) ∧
      (c.getVal? Scalar.bool? = some false → (m₂ s).1 ≠ .error .undefined) := by
  rw [choose]
  rcases c.getVal? Scalar.bool? with _ | _ | _ <;> simp [Fault.runtimeError]

/-- Evaluating a node is defined when all its operators are. -/
theorem evaluateNode_defined_iff (n : Node) (s : Env Stores) :
    (evaluateNode F n s).1 ≠ .error .undefined ↔ NodeDefined F n s := by
  induction n generalizing s with
  | notSet => simp [evaluateNode, NodeDefined, Fault.domainError]
  | const v => simp [evaluateNode, NodeDefined]
  | retrieve r => exact iff_of_true (Stores.reading_ne_undefined s.store r) trivial
  | mutate r n _ => simp [evaluateNode, NodeDefined, Fault.logicError]
  | switch c t f hc ht hf =>
    rw [evaluateNode, bind_defined_iff, hc, NodeDefined]
    simp only [choose_defined_iff, ht, hf]
  | unary op x hx =>
    rw [evaluateNode, bind_defined_iff, hx, NodeDefined]
    simp only [Fallible.run_ofExcept, unaryOp_defined_iff]
  | binary op x y hx hy =>
    rw [evaluateNode, bind_defined_iff, hx, NodeDefined]
    simp only [bind_defined_iff, hy, Fallible.run_ofExcept, binaryOp_defined_iff]
  | random l h hl hh =>
    rw [evaluateNode, bind_defined_iff, hl, NodeDefined]
    have hdraw : ∀ v w (s : Env Stores),
        (onGenerator (randomOp F v w) s).1 ≠ .error .undefined := by
      intro v w s
      simp only [onGenerator, randomOp]
      split
      · simp
      next e he =>
        rintro ⟨⟩
        simp [runFnWithVal₂, runFnWithVal_eq_undefined_iff] at he
    simp only [bind_defined_iff, hh]
    simp only [ne_eq, hdraw, not_false_iff, implies_true, and_true]

theorem mutateOp_defined_iff (o : Mutate) (s : Env Stores) :
    (mutateOp F o s).1 ≠ .error .undefined ↔ MutateDefined F o s := by
  rw [mutateOp, bind_defined_iff, evaluateNode_defined_iff, MutateDefined]
  have hstore : ∀ v (s' : Env Stores), (onStore (assign F o.mutateAttr v) s').1 ≠
      .error .undefined ↔ _ := fun v s' => assign_defined_iff F o.mutateAttr v s'.store
  simp only [hstore]

private theorem forEach_mutateOp_defined_iff (os : List Mutate) (s : Env Stores) :
    (Fallible.forEach (mutateOp F) os s).1 ≠ .error .undefined ↔ OutputsDefined F os s := by
  induction os generalizing s with
  | nil => simp [Fallible.forEach, OutputsDefined]
  | cons o os ih =>
    rw [Fallible.forEach, bind_defined_iff, mutateOp_defined_iff, OutputsDefined]
    simp only [ih]
    exact and_congr_right fun _ => ⟨fun h => h (), fun h _ => h⟩

/-! ## Requests -/

namespace Engine

/-- The graph is run to its end or throws, and the service answers what it returned or threw. -/
def Handled (graph : Graph) (onReturn : Unit → Response) (onCatch : Exception → Response)
    (name : String) (sim : Simulation Stores) (e : Engine Stores) : Prop :=
  (∃ s', runGraph F graph ⟨sim.store, e.gen⟩ = (.ok (), s') ∧
    answer onReturn onCatch (runOn (runGraph F graph) name sim e) =
      some (onReturn (), e.register name sim s')) ∨
  (∃ x s', runGraph F graph ⟨sim.store, e.gen⟩ = (.error (.exception x), s') ∧
    answer onReturn onCatch (runOn (runGraph F graph) name sim e) =
      some (onCatch x, e.register name sim s'))

/-- **Undefined behaviour**: running a graph on any store completes, or throws an exception that
is answered, exactly when each operator that is reached has its operands in its domain and each
number that is stored fits the type of its attribute. -/
theorem handled_iff_outputsDefined (graph : Graph) (onReturn : Unit → Response)
    (onCatch : Exception → Response) (name : String) (sim : Simulation Stores)
    (e : Engine Stores) : Handled F graph onReturn onCatch name sim e ↔
      OutputsDefined F graph.outputs ⟨sim.store, e.gen⟩ := by
  rw [← forEach_mutateOp_defined_iff, ← runGraph]
  rw [Handled, answer, runOn]
  rcases h : runGraph F graph ⟨sim.store, e.gen⟩ with ⟨(x | _) | ⟨⟩, s'⟩
  · exact iff_of_true (.inr ⟨x, s', rfl, rfl⟩) (by simp)
  · simp
  · exact iff_of_true (.inl ⟨s', rfl, rfl⟩) (by simp)

/-- A graph that divides one by zero is never handled. -/
theorem division_by_zero_not_handled : ¬ ∀ (F : FloatOps) (graph : Graph)
    (onReturn : Unit → Response) (onCatch : Exception → Response) (name : String)
    (sim : Simulation Stores) (e : Engine Stores),
    Handled F graph onReturn onCatch name sim e := by
  intro h
  have hdiv := h default ⟨[], [⟨⟨1, "C", "a"⟩, .binary .div (.const (setVal (.number (.int32 1))))
    (.const (setVal (.number (.int32 0))))⟩]⟩ (fun _ => .empty)
    (fun x => .error .internal x.what) "s" ⟨⟨"s", [], [], [], ⟨[], []⟩⟩, .new, false⟩ (new 0)
  rcases hdiv with ⟨s', hrun, -⟩ | ⟨x, s', hrun, -⟩
  · cases hrun
  · cases hrun

/-- Naming the system in the error keeps a fault undefined. -/
private theorem runSystems_defined_iff (systems : List SystemDef) (s : Env Stores) :
    (runSystems F systems s).1 ≠ .error .undefined ↔ OutputsDefined F (outputsOf systems) s := by
  rw [← forEach_mutateOp_defined_iff]
  induction systems generalizing s with
  | nil => rfl
  | cons system systems ih =>
    have hout : outputsOf (system :: systems) = system.graph.outputs ++ outputsOf systems := rfl
    rw [hout]
    rcases hsys : runGraph F system.graph s with ⟨x | ⟨⟩, s₁⟩
    · have hrun : runSystems F (system :: systems) s = (.error _, s₁) :=
        Fallible.run_bind_of_error (Fallible.mapFault_eq_error_iff.mpr ⟨x, hsys, rfl⟩)
      rw [hrun, Fallible.forEach_append_of_error _ hsys]
      cases x <;> simp [Fault.describe]
    · have hrun : runSystems F (system :: systems) s = runSystems F systems s₁ :=
        Fallible.run_bind_of_ok (Fallible.mapFault_eq_ok_iff.mpr hsys)
      rw [hrun, Fallible.forEach_append_of_ok _ hsys, ih]

/-- A step of a simulation is answered when the outputs of its systems are defined. -/
theorem stepSimulation_isSome_iff {name : String} {sim : Simulation Stores} {e : Engine Stores}
    (h : e.sims.get? name = some sim) : (stepSimulation F name e).isSome ↔
      OutputsDefined F (outputsOf sim.simDef.systems) ⟨sim.store, e.gen⟩ := by
  rw [← runSystems_defined_iff, stepSimulation, h]
  simp only [answer, runOn]
  rcases runSystems F sim.simDef.systems ⟨sim.store, e.gen⟩ with ⟨(x | _) | ⟨⟩, s'⟩ <;> simp

end Engine
end Bentobox
