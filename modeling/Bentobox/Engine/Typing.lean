import Bentobox.Engine.WellFormed
import Bentobox.Engine.Undefined

/-!
# Types of nodes

The engine checks types while it evaluates. Here they are found without evaluating: the
operations have a result type for the types of their operands, and so has a node when
the attributes have types. Evaluation of a node that has a type returns a value of this
type, or it stops where an operation is partial (`evaluateNode_typed`).

The partial operations are those that C++ leaves undefined on some integers, and the two
functions that the engine guards. A node without them always has a value.
-/
namespace Bentobox

/-! ## Types of the operations -/

/-- The type of the operands after the usual arithmetic conversions. -/
def commonType (s t : TypePrimitive) : Option TypePrimitive :=
  if s ∈ numericTypes ∧ t ∈ numericTypes then
    some (if s = .float64 ∨ t = .float64 then .float64
      else if s = .float32 ∨ t = .float32 then .float32
      else if s = .int64 ∨ t = .int64 then .int64
      else .int32)
  else none

/-- The type that a function of `<cmath>` returns. -/
def cmathType (t : TypePrimitive) : Option TypePrimitive :=
  if t ∈ numericTypes then some (if t = .float32 then .float32 else .float64) else none

/-- The common type of two operands that have to be integers. -/
def integerType (s t : TypePrimitive) : Option TypePrimitive :=
  if s ∈ [TypePrimitive.int32, .int64] ∧ t ∈ [TypePrimitive.int32, .int64] then commonType s t
  else none

/-- The common type of two operands that have to be floating-point numbers. -/
def floatingType (s t : TypePrimitive) : Option TypePrimitive :=
  if s ∈ [TypePrimitive.float32, .float64] ∧ t ∈ [TypePrimitive.float32, .float64] then
    commonType s t
  else none

def unaryType : UnaryOp → TypePrimitive → Option TypePrimitive
  | .not, t => if t = .bool then some .bool else none
  | .abs, t => if t ∈ numericTypes then some t else none
  | _, t => cmathType t

def binaryType : BinaryOp → TypePrimitive → TypePrimitive → Option TypePrimitive
  | .add, s, t | .sub, s, t | .mul, s, t | .div, s, t | .max, s, t | .min, s, t => commonType s t
  | .pow, s, t => if s = .float32 ∧ t = .float32 then some .float32
      else (commonType s t).map fun _ => .float64
  | .mod, s, t => integerType s t
  | .and, s, t | .or, s, t => if s = .bool ∧ t = .bool then some .bool else none
  | .eq, s, t =>
    if s = t ∧ (s = .string ∨ s = .bool) then some .bool else (commonType s t).map fun _ => .bool
  | .gt, s, t | .lt, s, t | .ge, s, t | .le, s, t => (commonType s t).map fun _ => .bool

/-- The operation is defined on all operands of the type. -/
def unaryTotal : UnaryOp → TypePrimitive → Bool
  | .abs, t => t ∈ [TypePrimitive.float32, .float64]
  | .arcsin, _ | .arccos, _ => false
  | _, _ => true

/-- The operation is defined on all operands of the types. -/
def binaryTotal : BinaryOp → TypePrimitive → TypePrimitive → Bool
  | .add, s, t | .sub, s, t | .mul, s, t | .div, s, t =>
    commonType s t ∉ [some TypePrimitive.int32, some .int64]
  | .mod, _, _ => false
  | _, _, _ => true

/-- A fault of a partial operation. -/
inductive Fault.Partial : Fault → Prop
  | undefined : Partial .undefined
  | arcSin : Partial (.domainError "arcSin's valid domain is [-1, 1].")
  | arcCos : Partial (.domainError "arcCos's valid domain is [-1, 1].")

/-- The value is a native value of the type. -/
def Value.HasType (t : TypePrimitive) (v : Value) : Prop := ∃ s : Scalar, v = setVal s ∧ s.type = t

/-- A value of the type, or a fault of an operation that is not total. -/
def TypedResult (t : TypePrimitive) (total : Bool) (r : Except Fault Value) : Prop :=
  (∃ v, r = .ok v ∧ v.HasType t) ∨ ∃ x, r = .error x ∧ x.Partial ∧ total = false

variable (F : FloatOps)

/-- The conversions come to the common type. -/
theorem type_promote (x y : Number) : commonType x.type y.type = some (match promote F x y with
    | .int32 _ _ => .int32
    | .int64 _ _ => .int64
    | .float32 _ _ => .float32
    | .float64 _ _ => .float64) := by
  cases x <;> cases y <;> rfl

theorem number_of_mem_numericTypes {s : Scalar} (h : s.type ∈ numericTypes) :
    ∃ n, s = .number n := by
  rcases s with n | s | b
  · exact ⟨n, rfl⟩
  · simp [Scalar.type, numericTypes] at h
  · simp [Scalar.type, numericTypes] at h

theorem bool_of_type {s : Scalar} (h : s.type = .bool) : ∃ b, s = .bool b := by
  rcases s with n | s | b
  · cases n <;> cases h
  · cases h
  · exact ⟨b, rfl⟩

/-- Operands with a common type are numbers. -/
theorem numbers_of_commonType {x y : Scalar} {t : TypePrimitive}
    (h : commonType x.type y.type = some t) : ∃ a b, x = .number a ∧ y = .number b := by
  have hnum : x.type ∈ numericTypes ∧ y.type ∈ numericTypes := by
    by_contra hnum
    rw [commonType, if_neg hnum] at h
    cases h
  obtain ⟨a, rfl⟩ := number_of_mem_numericTypes hnum.1
  obtain ⟨b, rfl⟩ := number_of_mem_numericTypes hnum.2
  exact ⟨a, b, rfl, rfl⟩

/-- Operands without a common type are not both numbers. -/
theorem not_numbers_of_commonType {x y : Scalar} (h : commonType x.type y.type = none) :
    x.number? = none ∨ y.number? = none := by
  rcases x with a | a | a
  · rcases y with b | b | b
    · rw [Scalar.type, Scalar.type, type_promote default] at h
      cases h
    · exact .inr rfl
    · exact .inr rfl
  · exact .inl rfl
  · exact .inl rfl

/-- A function on two operands throws where one of them has no allowed type. -/
theorem runFnWithVal₂_throws {α β : Type} {allowed : Scalar → Option α} {x y : Scalar}
    (fn : α → α → Except Fault β) (h : allowed x = none ∨ allowed y = none) :
    ∃ e, runFnWithVal₂ allowed (setVal x) (setVal y) fn = .error (.exception e) := by
  rw [runFnWithVal₂, runFnWithVal, Value.getVal?_setVal]
  cases hx : allowed x with
  | none => exact ⟨_, rfl⟩
  | some a =>
    have hy : allowed y = none := h.resolve_left (by rw [hx]; exact Option.some_ne_none a)
    simp only [runFnWithVal, Value.getVal?_setVal, hy]
    exact ⟨_, rfl⟩

theorem runFnWithVal₂_setVal {α β : Type} {allowed : Scalar → Option α} {x y : Scalar}
    (fn : α → α → Except Fault β) {a b : α} (ha : allowed x = some a) (hb : allowed y = some b) :
    runFnWithVal₂ allowed (setVal x) (setVal y) fn = fn a b := by
  simp only [runFnWithVal₂, runFnWithVal, Value.getVal?_setVal, ha, hb]

/-! ## The operations are typed -/

/-- What an operation does that has the result type `t`, if it has one: without one it throws. -/
def TypedOperation (t : Option TypePrimitive) (total : Bool) (r : Except Fault Value) : Prop :=
  match t with
  | some t => TypedResult t total r
  | none => ∃ e, r = .error (.exception e)

theorem typedResult_setVal (s : Scalar) (total : Bool) :
    TypedResult s.type total (.ok (setVal s)) := .inl ⟨_, rfl, s, rfl, rfl⟩

/-- A computation throws nothing: it is undefined, or yields a result of type `t`. -/
def Yields (t : TypePrimitive) (r : Except Fault Scalar) : Prop :=
  r = .error .undefined ∨ ∃ s, r = .ok s ∧ s.type = t

/-- An integer of any width that is computed without an exception. -/
theorem yields_integer {w : ℕ} {t : TypePrimitive} (mk : BitVec w → Scalar)
    (hmk : ∀ c, (mk c).type = t) {r : Except Fault (BitVec w)}
    (hr : ∀ e, r ≠ .error (.exception e)) : Yields t (mk <$> r) := by
  rcases r with (e | _) | c
  · exact absurd rfl (hr e)
  · exact .inl rfl
  · exact .inr ⟨_, rfl, hmk c⟩

theorem checked_ne_exception (w : ℕ) (z : ℤ) (e : Exception) :
    checked w z ≠ .error (.exception e) := by
  rw [checked]
  split_ifs <;> simp

/-- What yields a result of a type is typed, if it is defined where the operation is total. -/
theorem typedResult_of_yields {t : TypePrimitive} {total : Bool} {r : Except Fault Scalar}
    (hr : Yields t r) (htotal : total = true → setVal <$> r ≠ .error .undefined) :
    TypedResult t total (setVal <$> r) := by
  rcases hr with rfl | ⟨s, rfl, rfl⟩
  · refine .inr ⟨_, rfl, .undefined, ?_⟩
    rw [← Bool.not_eq_true]
    exact fun h => htotal h rfl
  · exact typedResult_setVal s total

/-- A total operation is defined on operands of the types. -/
theorem binaryDefined_of_binaryTotal {op : BinaryOp} {x y : Scalar}
    (h : binaryTotal op x.type y.type = true) : BinaryDefined F op (setVal x) (setVal y) := by
  rw [BinaryDefined, Value.getVal?_setVal, Value.getVal?_setVal]
  rcases x with a | a | a
  · rcases y with b | b | b
    · simp only [Scalar.number?, Scalar.type] at h ⊢
      have hcommon := type_promote F a b
      cases hp : promote F a b with
      | int32 c d =>
        rw [hp] at hcommon
        cases op <;> simp_all [binaryTotal, IntegerDomain]
      | int64 c d =>
        rw [hp] at hcommon
        cases op <;> simp_all [binaryTotal, IntegerDomain]
      | float32 c d => trivial
      | float64 c d => trivial
    · trivial
    · trivial
  · trivial
  · trivial

/-- Arithmetic that throws nothing on integers yields a number of the common type. -/
theorem yields_arith {op : ArithOp} (hop : ∀ w a b e, op.int w a b ≠ .error (.exception e))
    {a b : Number} {t : TypePrimitive} (hc : commonType a.type b.type = some t) :
    Yields t (op.apply F a b) := by
  rw [ArithOp.apply]
  rw [type_promote F] at hc
  cases hp : promote F a b with
  | int32 c d =>
    simp only [hp, Option.some.injEq] at hc ⊢
    exact yields_integer (.number <| .int32 ·) (fun _ => hc) (hop _ _ _)
  | int64 c d =>
    simp only [hp, Option.some.injEq] at hc ⊢
    exact yields_integer (.number <| .int64 ·) (fun _ => hc) (hop _ _ _)
  | float32 c d =>
    simp only [hp, Option.some.injEq] at hc
    exact .inr ⟨_, rfl, hc⟩
  | float64 c d =>
    simp only [hp, Option.some.injEq] at hc
    exact .inr ⟨_, rfl, hc⟩

/-- Arithmetic that throws nothing on integers is typed by the common type. -/
theorem arithOp_typed {op : ArithOp} (hop : ∀ w a b e, op.int w a b ≠ .error (.exception e))
    {total : Bool} {x y : Scalar}
    (htotal : total = true → arithOp F op (setVal x) (setVal y) ≠ .error .undefined) :
    TypedOperation (commonType x.type y.type) total (arithOp F op (setVal x) (setVal y)) := by
  cases hc : commonType x.type y.type with
  | none =>
    obtain ⟨e, he⟩ := runFnWithVal₂_throws (op.apply F) (not_numbers_of_commonType hc)
    exact ⟨e, by rw [arithOp, he]; rfl⟩
  | some t =>
    obtain ⟨a, b, rfl, rfl⟩ := numbers_of_commonType hc
    have happly : arithOp F op (setVal (.number a)) (setVal (.number b)) =
        setVal <$> op.apply F a b := by
      rw [arithOp, runFnWithVal₂_setVal (op.apply F) rfl rfl]
    rw [happly] at htotal ⊢
    exact typedResult_of_yields (yields_arith F hop hc) htotal

/-- A comparison is typed wherever its operands have a common type. -/
theorem compareOp_typed (op : CompareOp) (total : Bool) (x y : Scalar) :
    TypedOperation ((commonType x.type y.type).map fun _ => .bool) total
      (compareOp F op (setVal x) (setVal y)) := by
  cases hc : commonType x.type y.type with
  | none =>
    obtain ⟨e, he⟩ := runFnWithVal₂_throws (fun a b => Except.ok (op.apply F a b))
      (not_numbers_of_commonType hc)
    exact ⟨e, by rw [compareOp, he]; rfl⟩
  | some t =>
    obtain ⟨a, b, rfl, rfl⟩ := numbers_of_commonType hc
    rw [compareOp, runFnWithVal₂_setVal (fun a b => Except.ok (op.apply F a b)) rfl rfl]
    refine .inl ⟨_, rfl, _, rfl, ?_⟩
    rw [CompareOp.apply]
    split <;> rfl

theorem logicalOp_typed (name : String) (fn : Bool → Bool → Bool) (total : Bool) (x y : Scalar) :
    TypedOperation (if x.type = .bool ∧ y.type = .bool then some .bool else none) total
      (logicalOp name fn (setVal x) (setVal y)) := by
  rw [logicalOp, Value.getVal?_setVal, Value.getVal?_setVal]
  split_ifs with h
  · obtain ⟨a, rfl⟩ := bool_of_type h.1
    obtain ⟨b, rfl⟩ := bool_of_type h.2
    exact typedResult_setVal (.bool (fn a b)) total
  · split
    next a b ha hb =>
      exfalso
      refine h ⟨?_, ?_⟩
      · rcases x with _ | _ | _ <;> cases ha; rfl
      · rcases y with _ | _ | _ <;> cases hb; rfl
    next => exact ⟨_, rfl⟩

theorem powOp_typed (total : Bool) (x y : Scalar) :
    TypedOperation (binaryType .pow x.type y.type) total (powOp F (setVal x) (setVal y)) := by
  rw [binaryType]
  cases hc : commonType x.type y.type with
  | none =>
    obtain ⟨e, he⟩ := runFnWithVal₂_throws (fun a b => Except.ok (Number.power F a b))
      (not_numbers_of_commonType hc)
    rw [if_neg fun h => by rw [h.1, h.2] at hc; cases hc]
    exact ⟨e, by rw [powOp, he]; rfl⟩
  | some t =>
    obtain ⟨a, b, rfl, rfl⟩ := numbers_of_commonType hc
    rw [powOp, runFnWithVal₂_setVal (fun a b => Except.ok (Number.power F a b)) rfl rfl]
    cases a <;> cases b <;> exact typedResult_setVal (Number.power F _ _) total

/-- A remainder is defined and of the common type, or undefined. -/
theorem yields_modulo (a b : Integer) : Yields (match a, b with
    | .int32 _, .int32 _ => .int32
    | _, _ => .int64) (modulo a b) := by
  have hrem : ∀ (w : ℕ) (x y : ℤ) (e : Exception), remainder w x y ≠ .error (.exception e) := by
    intro w x y e
    rw [remainder]
    split_ifs <;> simp
  cases a with
  | int32 a =>
    cases b with
    | int32 b => exact yields_integer (.number <| .int32 ·) (fun _ => rfl) (hrem _ _ _)
    | int64 b => exact yields_integer (.number <| .int64 ·) (fun _ => rfl) (hrem _ _ _)
  | int64 a => exact yields_integer (.number <| .int64 ·) (fun _ => rfl) (hrem _ _ _)

theorem modOp_typed {total : Bool} {x y : Scalar}
    (htotal : total = true → modOp (setVal x) (setVal y) ≠ .error .undefined) :
    TypedOperation (integerType x.type y.type) total (modOp (setVal x) (setVal y)) := by
  cases hx : x.integer? with
  | none =>
    obtain ⟨e, he⟩ := runFnWithVal₂_throws (y := y) modulo (.inl hx)
    have hnone : integerType x.type y.type = none := by
      rw [integerType, if_neg]
      rintro ⟨h, -⟩
      rcases x with (_ | _ | _ | _) | _ | _ <;> simp_all [Scalar.type, Number.type, Scalar.integer?]
    rw [hnone]
    exact ⟨e, by rw [modOp, he]; rfl⟩
  | some a =>
    cases hy : y.integer? with
    | none =>
      obtain ⟨e, he⟩ := runFnWithVal₂_throws (x := x) modulo (.inr hy)
      have hnone : integerType x.type y.type = none := by
        rw [integerType, if_neg]
        rintro ⟨-, h⟩
        rcases y with (_ | _ | _ | _) | _ | _ <;>
          simp_all [Scalar.type, Number.type, Scalar.integer?]
      rw [hnone]
      exact ⟨e, by rw [modOp, he]; rfl⟩
    | some b =>
      have hmod : modOp (setVal x) (setVal y) = setVal <$> modulo a b := by
        rw [modOp, runFnWithVal₂_setVal modulo hx hy]
      have hyields := yields_modulo a b
      rw [hmod] at htotal ⊢
      rcases x with (_ | _ | _ | _) | _ | _ <;> cases hx <;>
        rcases y with (_ | _ | _ | _) | _ | _ <;> cases hy <;>
        exact typedResult_of_yields hyields htotal

theorem eqOp_typed (total : Bool) (x y : Scalar) :
    TypedOperation (binaryType .eq x.type y.type) total (eqOp F (setVal x) (setVal y)) := by
  rw [eqOp, Value.getVal?_setVal]
  rcases x with a | a | a
  · have htype : binaryType .eq (Scalar.number a).type y.type =
        (commonType (Scalar.number a).type y.type).map fun _ => .bool := by
      rw [binaryType, if_neg]
      rintro ⟨-, h | h⟩ <;> cases a <;> cases h
    rw [htype]
    exact compareOp_typed F equal total (.number a) y
  · rcases y with b | b | b
    · cases b <;> exact ⟨_, rfl⟩
    · exact typedResult_setVal (.bool (decide (a = b))) total
    · exact ⟨_, rfl⟩
  · rcases y with b | b | b
    · cases b <;> exact ⟨_, rfl⟩
    · exact ⟨_, rfl⟩
    · exact typedResult_setVal (.bool (decide (a = b))) total

/-- **Operations of two operands are typed**: on operands of types that have a result type they
return a value of it, or are partial; on operands of other types they throw. -/
theorem binaryOp_typed (op : BinaryOp) (x y : Scalar) :
    TypedOperation (binaryType op x.type y.type) (binaryTotal op x.type y.type)
      (binaryOp F op (setVal x) (setVal y)) := by
  have hdef : binaryTotal op x.type y.type = true →
      binaryOp F op (setVal x) (setVal y) ≠ .error .undefined :=
    fun h => (binaryOp_defined_iff F op _ _).mpr (binaryDefined_of_binaryTotal F h)
  cases op with
  | add | sub | mul => exact arithOp_typed F (fun w a b => checked_ne_exception w _) hdef
  | div =>
    refine arithOp_typed F (fun w a b e => ?_) hdef
    simp only [quotient]
    split_ifs
    · simp
    · exact checked_ne_exception w _ e
  | max | min => exact arithOp_typed F (fun w a b e => by simp [larger, smaller]) hdef
  | pow => exact powOp_typed F _ x y
  | mod => exact modOp_typed hdef
  | and | or => exact logicalOp_typed _ _ _ x y
  | eq => exact eqOp_typed F _ x y
  | gt | lt | ge | le => exact compareOp_typed F _ _ x y

theorem cmathOp_typed (fn : {w : ℕ} → FloatFormat w → BitVec w → BitVec w) (total : Bool)
    (x : Scalar) : TypedOperation (cmathType x.type) total (cmathOp F fn (setVal x)) := by
  rw [cmathOp, runFnWithVal, Value.getVal?_setVal]
  rcases x with a | a | a
  · cases a <;> exact typedResult_setVal (Number.cmath F fn _) total
  · exact ⟨_, rfl⟩
  · exact ⟨_, rfl⟩

/-- A guarded function throws outside its domain, so it is partial. -/
theorem guardedOp_typed (fn : {w : ℕ} → FloatFormat w → BitVec w → BitVec w) {what : String}
    (hwhat : (Fault.domainError what).Partial) (x : Scalar) :
    TypedOperation (cmathType x.type) false (guardedOp F fn what (setVal x)) := by
  rw [guardedOp, runFnWithVal, Value.getVal?_setVal]
  rcases x with a | a | a
  · by_cases hout : a.outsideUnit F = true
    · simp only [Scalar.number?, hout, if_true]
      cases a <;> exact .inr ⟨_, rfl, hwhat, rfl⟩
    · simp only [Scalar.number?, hout]
      cases a <;> exact typedResult_setVal (Number.cmath F fn _) false
  · exact ⟨_, rfl⟩
  · exact ⟨_, rfl⟩

theorem absOp_typed (x : Scalar) :
    TypedOperation (unaryType .abs x.type) (unaryTotal .abs x.type) (absOp F (setVal x)) := by
  rw [absOp, runFnWithVal, Value.getVal?_setVal]
  rcases x with a | a | a
  · cases a with
    | int32 a =>
      exact typedResult_of_yields
        (yields_integer (.number <| .int32 ·) (fun _ => rfl) (checked_ne_exception _ _))
        (fun h => by cases h)
    | int64 a =>
      exact typedResult_of_yields
        (yields_integer (.number <| .int64 ·) (fun _ => rfl) (checked_ne_exception _ _))
        (fun h => by cases h)
    | float32 a => exact typedResult_setVal (.number (.float32 (F.f32.abs a))) _
    | float64 a => exact typedResult_setVal (.number (.float64 (F.f64.abs a))) _
  · exact ⟨_, rfl⟩
  · exact ⟨_, rfl⟩

/-- **Operations of one operand are typed.** -/
theorem unaryOp_typed (op : UnaryOp) (x : Scalar) :
    TypedOperation (unaryType op x.type) (unaryTotal op x.type) (unaryOp F op (setVal x)) := by
  cases op with
  | abs => exact absOp_typed F x
  | not =>
    simp only [unaryOp, notOp, Value.getVal?_setVal]
    rcases x with a | a | a
    · cases a <;> exact ⟨_, rfl⟩
    · exact ⟨_, rfl⟩
    · exact typedResult_setVal (.bool (!a)) _
  | arcsin => exact guardedOp_typed F _ .arcSin x
  | arccos => exact guardedOp_typed F _ .arcCos x
  | _ => exact cmathOp_typed F _ _ x

theorem randomOp_typed (gen : ℕ) (total : Bool) (x y : Scalar) :
    TypedOperation (floatingType x.type y.type) total
      (randomOp F (setVal x) (setVal y) gen).1 := by
  rw [randomOp]
  rcases x with (a | a | a | a) | a | a <;> rcases y with (b | b | b | b) | b | b <;>
    first
    | exact ⟨_, rfl⟩
    | exact typedResult_setVal (.number (.float32 _)) total
    | exact typedResult_setVal (.number (.float64 _)) total

/-! ## Types of nodes -/

/-- The type of a native value. -/
def Value.nativeType (v : Value) : Option TypePrimitive :=
  match v.getVal? Scalar.any? with
  | some s => if v = setVal s then some s.type else none
  | none => none

theorem Value.hasType_of_nativeType {v : Value} {t : TypePrimitive} (h : v.nativeType = some t) :
    v.HasType t := by
  rw [nativeType] at h
  split at h
  next s _ =>
    split_ifs at h with hv
    cases h
    exact ⟨s, hv, rfl⟩
  next => cases h

namespace Node

/-- The type of a node, when the attributes have the types `Γ`. -/
def typeOf (Γ : AttributeRef → Option TypePrimitive) : Node → Option TypePrimitive
  | notSet | mutate _ _ => none
  | const heldValue => heldValue.nativeType
  | retrieve retrieveAttr => Γ retrieveAttr
  | switch conditionNode trueNode falseNode =>
    if conditionNode.typeOf Γ = some .bool ∧ trueNode.typeOf Γ = falseNode.typeOf Γ then
      trueNode.typeOf Γ
    else none
  | unary op x => (x.typeOf Γ).bind (unaryType op)
  | binary op x y => (x.typeOf Γ).bind fun s => (y.typeOf Γ).bind fun t => binaryType op s t
  | random low high =>
    (low.typeOf Γ).bind fun s => (high.typeOf Γ).bind fun t => floatingType s t

/-- Every operation of a node is total. -/
def total (Γ : AttributeRef → Option TypePrimitive) : Node → Bool
  | notSet | const _ | retrieve _ | mutate _ _ => true
  | switch conditionNode trueNode falseNode =>
    conditionNode.total Γ && trueNode.total Γ && falseNode.total Γ
  | unary op x => x.total Γ && ((x.typeOf Γ).map (unaryTotal op)).getD false
  | binary op x y => x.total Γ && y.total Γ &&
      ((x.typeOf Γ).bind fun s => (y.typeOf Γ).map fun t => binaryTotal op s t).getD false
  | random low high => low.total Γ && high.total Γ

end Node

/-- The value is there and has its type. -/
def AttributeMap.HasAttribute (m : AttributeMap) (Γ : AttributeRef → Option TypePrimitive)
    (ref : AttributeRef) : Prop :=
  ∀ t, Γ ref = some t → ∃ v, m.get ref = .ok v ∧ v.HasType t

/-- The continuation of a typed result. -/
theorem typedResult_bind {t u : TypePrimitive} {total total' : Bool} {m : Eval AttributeMap Value}
    {f : Value → Eval AttributeMap Value} {s : Env AttributeMap}
    (hm : TypedResult t total (m s).1) (hstore : (m s).2.store = s.store)
    (hf : ∀ (x : Scalar) s', x.type = t → s'.store = s.store →
      TypedResult u total' (f (setVal x) s').1) :
    TypedResult u (total && total') ((m >>= f) s).1 := by
  rcases hrun : m s with ⟨x | v, s'⟩
  · rw [Fallible.run_bind_of_error hrun]
    rw [hrun] at hm
    rcases hm with ⟨v, hv, -⟩ | ⟨y, hy, hstopped, htotal⟩
    · cases hv
    · exact .inr ⟨y, hy, hstopped, by rw [htotal, Bool.false_and]⟩
  · rw [Fallible.run_bind_of_ok hrun]
    rw [hrun] at hm hstore
    rcases hm with ⟨w, hw, x, rfl, htype⟩ | ⟨y, hy, -⟩
    · cases hw
      rcases hf x s' htype hstore with hok | ⟨y, hy, hstopped, htotal⟩
      · exact .inl hok
      · exact .inr ⟨y, hy, hstopped, by rw [htotal, Bool.and_false]⟩
    · cases hy

/-- A typed operation on operands of types with a result type. -/
theorem TypedOperation.result {o : Option TypePrimitive} {t : TypePrimitive} {total : Bool}
    {r : Except Fault Value} (h : TypedOperation o total r) (ht : o = some t) :
    TypedResult t total r := by
  subst ht
  exact h

/-- **Evaluation of a typed node** returns a value of its type, or it stops at a partial
operation of the node. -/
theorem evaluateNode_typed {Γ : AttributeRef → Option TypePrimitive} {n : Node}
    {t : TypePrimitive} (hn : n.typeOf Γ = some t) {s : Env AttributeMap}
    (hs : ∀ ref ∈ n.retrieves, s.store.HasAttribute Γ ref) :
    TypedResult t (n.total Γ) (evaluateNode F n s).1 := by
  -- the store of `s` is all that evaluation reads, and it does not change
  obtain ⟨m, gen⟩ := s
  change ∀ ref ∈ n.retrieves, m.HasAttribute Γ ref at hs
  have hstore : ∀ (x : Node) (s : Env AttributeMap), s.store = m →
      (evaluateNode F x s).2.store = s.store := fun x s _ => AttributeMap.evaluateNode_store F x s
  suffices h : ∀ s : Env AttributeMap, s.store = m →
      TypedResult t (n.total Γ) (evaluateNode F n s).1 from h _ rfl
  induction n generalizing t with
  | notSet => cases hn
  | const v =>
    exact fun s _ => .inl ⟨v, rfl, Value.hasType_of_nativeType hn⟩
  | retrieve ref =>
    rintro s rfl
    obtain ⟨v, hv, htype⟩ := hs ref (by simp [Node.retrieves]) t hn
    exact .inl ⟨v, hv, htype⟩
  | mutate ref n _ => cases hn
  | switch c x y hc hx hy =>
    intro s hsm
    simp only [Node.typeOf] at hn
    split_ifs at hn with hbranches
    have hcond := hc hbranches.1 (fun ref hr => hs ref (by simp [Node.retrieves, hr])) s hsm
    have hx' := hx hn fun ref hr => hs ref (by simp [Node.retrieves, hr])
    have hy' := hy (hbranches.2 ▸ hn) fun ref hr => hs ref (by simp [Node.retrieves, hr])
    rw [Node.total, Bool.and_assoc]
    refine typedResult_bind hcond (hstore c s hsm) fun b s' hb hs' => ?_
    obtain ⟨b, rfl⟩ := bool_of_type hb
    -- only one branch is evaluated, so the other need not be total
    cases b with
    | true =>
      rw [choose, Value.getVal?_setVal]
      rcases hx' s' (hs'.trans hsm) with hok | ⟨e, he, hstopped, htotal⟩
      · exact .inl hok
      · exact .inr ⟨e, he, hstopped, by rw [htotal, Bool.false_and]⟩
    | false =>
      rw [choose, Value.getVal?_setVal]
      rcases hy' s' (hs'.trans hsm) with hok | ⟨e, he, hstopped, htotal⟩
      · exact .inl hok
      · exact .inr ⟨e, he, hstopped, by rw [htotal, Bool.and_false]⟩
  | unary op x hx =>
    intro s hsm
    simp only [Node.typeOf] at hn
    obtain ⟨u, hu, hop⟩ := Option.bind_eq_some_iff.mp hn
    rw [Node.total, hu]
    refine typedResult_bind (hx hu hs s hsm) (hstore x s hsm) fun a s' ha _ => ?_
    subst ha
    exact (unaryOp_typed F op a).result hop
  | binary op x y hx hy =>
    intro s hsm
    simp only [Node.typeOf] at hn
    obtain ⟨u, hu, hn⟩ := Option.bind_eq_some_iff.mp hn
    obtain ⟨w, hw, hop⟩ := Option.bind_eq_some_iff.mp hn
    have hx' := hx hu fun ref hr => hs ref (by simp [Node.retrieves, hr])
    have hy' := hy hw fun ref hr => hs ref (by simp [Node.retrieves, hr])
    rw [Node.total, hu, hw, Bool.and_assoc]
    refine typedResult_bind (hx' s hsm) (hstore x s hsm) fun a s₁ ha hs₁ => ?_
    refine typedResult_bind (hy' s₁ (hs₁.trans hsm)) (hstore y s₁ (hs₁.trans hsm))
      fun b s₂ hb _ => ?_
    subst ha hb
    exact (binaryOp_typed F op a b).result hop
  | random x y hx hy =>
    intro s hsm
    simp only [Node.typeOf] at hn
    obtain ⟨u, hu, hn⟩ := Option.bind_eq_some_iff.mp hn
    obtain ⟨w, hw, hop⟩ := Option.bind_eq_some_iff.mp hn
    have hx' := hx hu fun ref hr => hs ref (by simp [Node.retrieves, hr])
    have hy' := hy hw fun ref hr => hs ref (by simp [Node.retrieves, hr])
    rw [Node.total, ← Bool.and_true (Node.total Γ y)]
    refine typedResult_bind (hx' s hsm) (hstore x s hsm) fun a s₁ ha hs₁ => ?_
    refine typedResult_bind (hy' s₁ (hs₁.trans hsm)) (hstore y s₁ (hs₁.trans hsm))
      fun b s₂ hb _ => ?_
    subst ha hb
    exact (randomOp_typed F s₂.gen true a b).result hop

end Bentobox
