import Bentobox.Sdk.RoundTrip

/-!
# Wrapped arrays

`wrap_primitive` takes the type of each element from its value, and `unwrap` reads all elements
as the type of the first one. An array comes back when the elements agree with the first one, or
are 0, which is what the decoder reads where nothing is set.
-/
namespace Bentobox.Sdk

/-! ## Python's equality -/

/-- The number 1 as a multiple of the smallest positive float. -/
def scale : ℤ := 2 ^ 1074

/-- A finite number of Python as a multiple of the smallest positive float. -/
def Native.number : Native → Option ℤ
  | int val => some (val * scale)
  | bool val => some (if val then scale else 0)
  | str _ => none
  | float val =>
    let exponent := (val.extractLsb' 52 11).toNat
    let mantissa := (val.extractLsb' 0 52).toNat
    if exponent = 2047 then none
    else
      let magnitude := if exponent = 0 then mantissa else (2 ^ 52 + mantissa) * 2 ^ (exponent - 1)
      some (if val.msb then -magnitude else magnitude)

def Native.isNaN : Native → Bool
  | float val => (val.extractLsb' 52 11).toNat = 2047 ∧ (val.extractLsb' 0 52).toNat ≠ 0
  | _ => false

/-- `x == y` -/
def Native.pyEq (x y : Native) : Bool :=
  match x.number, y.number with
  | some a, some b => a = b
  | none, none => x = y ∧ x.isNaN = false
  | _, _ => false

theorem Native.number_int_eq_zero_iff {val : ℤ} : (int val).number = some 0 ↔ val = 0 := by
  have hscale : scale ≠ 0 := Int.ne_of_gt (Int.pow_pos (by decide : (0 : ℤ) < 2))
  simp [number, hscale]

theorem Native.pyEq_self {x : Native} (h : x.isNaN = false) : x.pyEq x = true := by
  rw [pyEq]
  cases x.number <;> simp [h]

/-- The first type has both values. -/
def Native.sameType : Native → Native → Bool
  | int _, int _ | float _, float _ | str _, str _ | bool _, bool _ => true
  | _, _ => false

/-! ## Numpy -/

/-- A value as an element of an array of its type. -/
def Native.inArray : Native → Native
  | str val => str (stripZeros val)
  | val => val

/-- What numpy documents of `flatten`, and of `asarray` and `reshape` on a list of values of one
type: there are as many elements as the shape says, in row-major order. -/
structure Numpy.RowMajor (np : Numpy) : Prop where
  flatten : ∀ c vals, np.asarray c = some vals → vals.length = c.shape.prod
  reshape : ∀ (natives : List Native) (shape : List ℕ), natives.length = shape.prod →
    (∃ x : Native, ∀ y ∈ natives, x.sameType y) →
    (∀ val, .int val ∈ natives → InRange 64 val) →
    ∃ d, np.reshape (natives.map some) (shape.map Int.ofNat) = .ok d ∧ d.shape = shape ∧
      d.elements.map PyScalar.item = natives.map Native.inArray

/-! ## Elements -/

/-- The type that `wrap_primitive` chooses. -/
def PyScalar.type : PyScalar → TypePrimitive
  | native (.int val) => if InRange 32 val then .int32 else .int64
  | native (.float _) | numpy (.float64 _) => .float64
  | native (.str _) | numpy (.str _) => .string
  | native (.bool _) | numpy (.bool _) => .bool
  | numpy (.int32 _) => .int32
  | numpy (.int64 _) => .int64

/-- What is read of a field that is not set. -/
def unset : TypePrimitive → Native
  | .float32 | .float64 => .float 0
  | .bool => .bool false
  | .string => .str ""
  | _ => .int 0

/-- What is read of the element as a value of the given type. -/
def PyScalar.readAs (t : TypePrimitive) (x : PyScalar) : Native :=
  if x.type = t then x.item else unset t

/-- The element comes back from an array of the given type: it is of this type, and without
trailing zeros if it is a string, or it is the number 0. -/
def PyScalar.KeptAs (t : TypePrimitive) (x : PyScalar) : Prop :=
  (x.type = t ∧ x.item.inArray = x.item) ∨ (t ≠ .string ∧ x.item.number = some 0)

variable (F : FloatOps) {np : Numpy}

/-- What is wrapped is a scalar of numpy with the same value. -/
theorem PyScalar.wrap_eq_setVal {x : PyScalar} {p : Value} (h : x.wrap = .ok p) :
    ∃ s : NumpyScalar, p = setVal s.scalar ∧ s.item = x.item ∧ s.scalar.type = x.type := by
  cases x with
  | numpy val =>
    cases h
    refine ⟨val, rfl, rfl, ?_⟩
    cases val <;> rfl
  | native val =>
    cases val with
    | int val =>
      simp only [wrap, wrapPrimitive] at h
      split_ifs at h with h32 h64
      · cases h
        exact ⟨.int32 _, rfl, congrArg Native.int (toInt_ofInt_of_inRange (by decide) h32),
          (if_pos h32).symm⟩
      · cases h
        exact ⟨.int64 _, rfl, congrArg Native.int (toInt_ofInt_of_inRange (by decide) h64),
          (if_neg h32).symm⟩
    | float val =>
      cases h
      exact ⟨.float64 val, rfl, rfl, rfl⟩
    | str val =>
      cases h
      exact ⟨.str val, rfl, rfl, rfl⟩
    | bool val =>
      cases h
      exact ⟨.bool val, rfl, rfl, rfl⟩

/-- An element is read as a value of the type of another one. -/
theorem unwrapPrimitive_readAs {x first : PyScalar} {p q : Value} (hx : x.wrap = .ok p)
    (hfirst : first.wrap = .ok q) :
    unwrapPrimitive F ⟨some (.primitive first.type), .primitive p.getPrimitive⟩ =
      .ok (some (x.readAs first.type)) := by
  obtain ⟨s, rfl, hitem, htype⟩ := PyScalar.wrap_eq_setVal hx
  obtain ⟨s', -, -, htype'⟩ := PyScalar.wrap_eq_setVal hfirst
  rw [PyScalar.readAs, ← hitem, ← htype, ← htype']
  cases s <;> cases s' <;> rfl

theorem PyScalar.type_of_item {x : PyScalar} {val : String} (h : x.item = .str val) :
    x.type = .string := by
  cases x with
  | native y =>
    cases h
    rfl
  | numpy y =>
    cases y <;> cases h
    rfl

theorem number_unset {t : TypePrimitive} (ht : t ≠ .string) : (unset t).number = some 0 := by
  cases t with
  | string => exact absurd rfl ht
  | float32 | float64 | bool => rfl
  | _ => exact congrArg some (Int.zero_mul _)

theorem inArray_unset (t : TypePrimitive) : (unset t).inArray = unset t := by
  cases t <;> rfl

/-- **An element comes back** from an array of the given type exactly if it is kept. -/
theorem pyEq_readAs_iff {x : PyScalar} (hx : x.item.isNaN = false) (t : TypePrimitive) :
    (x.readAs t).inArray.pyEq x.item = true ↔ x.KeptAs t := by
  by_cases ht : x.type = t
  · rw [PyScalar.readAs, if_pos ht, PyScalar.KeptAs]
    cases hitem : x.item with
    | str val => simp [Native.inArray, Native.pyEq, Native.number, Native.isNaN, ht]
    | int val | float val | bool val =>
      rw [hitem] at hx
      simp [Native.inArray, Native.pyEq_self hx, ht]
  · rw [PyScalar.readAs, if_neg ht, inArray_unset, PyScalar.KeptAs]
    by_cases hstring : t = .string
    · subst hstring
      have hne : (Native.str "").pyEq x.item = false := by
        rw [Native.pyEq]
        cases hitem : x.item with
        | str val => exact absurd (PyScalar.type_of_item hitem) ht
        | int val | bool val => rfl
        | float val => cases hn : (Native.float val).number <;> simp [Native.number]
      simp [unset, hne, ht]
    · rw [Native.pyEq, number_unset hstring]
      cases x.item.number <;> simp [ht, hstring, eq_comm]

/-- Whatever is read as one type is of one type of Python. -/
theorem sameType_readAs (t : TypePrimitive) (x : PyScalar) :
    (unset t).sameType (x.readAs t) = true := by
  rw [PyScalar.readAs]
  split
  next ht =>
    rw [← ht]
    rcases x with (_ | _ | _ | _) | (_ | _ | _ | _ | _)
    case native.int =>
      rw [PyScalar.type]
      split <;> rfl
    all_goals rfl
  next => cases t <;> rfl

theorem inRange_readAs {x : PyScalar} {p : Value} (hx : x.wrap = .ok p) {t : TypePrimitive}
    {val : ℤ} (h : x.readAs t = .int val) : InRange 64 val := by
  rw [PyScalar.readAs] at h
  split at h
  · obtain ⟨s, -, hitem, -⟩ := PyScalar.wrap_eq_setVal hx
    rw [← hitem] at h
    cases s with
    | int32 b =>
      cases h
      have hb := inRange_toInt b
      simp only [InRange] at hb ⊢
      omega
    | int64 b =>
      cases h
      exact inRange_toInt b
    | float64 b | str b | bool b => cases h
  · cases t <;> cases h <;> decide

/-! ## The round trip -/

/-- `unwrap(wrap(v)) == v`, for a collection with the shape and the elements of `np.asarray(v)`. -/
def ComesBack (np : Numpy) (w : Value) : PyValue → Prop
  | .scalar x => ∃ u, unwrap F np w = .ok (some (.scalar u)) ∧ u.item.pyEq x.item = true
  | .collection c => ∃ vals d, np.asarray c = some vals ∧
    unwrap F np w = .ok (some (.collection d)) ∧ d.shape = c.shape ∧
    List.Forall₂ (fun x y => Native.pyEq x.item y.item = true) d.elements vals

/-- The values that are compared. -/
def PyValue.scalars (np : Numpy) : PyValue → List PyScalar
  | scalar x => [x]
  | collection c => (np.asarray c).getD []

/-- Every element of a collection is kept by the type of the first one. -/
def PyValue.Kept (np : Numpy) : PyValue → Prop
  | scalar _ => True
  | collection c => ∀ vals, np.asarray c = some vals → ∀ first ∈ vals.head?, ∀ x ∈ vals,
    x.KeptAs first.type

theorem mapM_unwrapPrimitive {first : PyScalar} {q : Value} (hfirst : first.wrap = .ok q)
    {vals : List PyScalar} {primitives : List Value}
    (hall : List.Forall₂ (fun x p => PyScalar.wrap x = .ok p) vals primitives) :
    (primitives.map Value.getPrimitive).mapM
        (fun p => unwrapPrimitive F ⟨some (.primitive first.type), .primitive p⟩) =
      .ok (vals.map fun x => some (x.readAs first.type)) := by
  induction hall with
  | nil => rfl
  | cons hx _ ih =>
    rw [List.map_cons, List.mapM_cons, unwrapPrimitive_readAs F hx hfirst, Fallible.ok_bind, ih,
      Fallible.ok_bind]
    rfl

/-- An array unwraps to an array of its shape, with its elements read as the type of the first. -/
theorem unwrap_wrap_collection (hnp : np.RowMajor) {c : Collection} {w : Value}
    (hw : c.wrap np = .ok w) : ∃ first vals d, np.asarray c = some (first :: vals) ∧
      unwrap F np w = .ok (some (.collection d)) ∧ d.shape = c.shape ∧
      d.elements.map PyScalar.item =
        (first :: vals).map fun x => (x.readAs first.type).inArray := by
  obtain ⟨vals, primitives, p, hvals, hall, hp, rfl⟩ := Collection.wrap_eq_ok hw
  cases hall with
  | nil => cases hp
  | @cons first p' vals primitives hfirst hrest =>
    cases hp
    have hall : List.Forall₂ (fun x p => PyScalar.wrap x = .ok p) (first :: vals)
        (p :: primitives) := .cons hfirst hrest
    have hlen := hnp.flatten c _ hvals
    obtain ⟨d, hreshape, hshape, hitems⟩ := hnp.reshape
      ((first :: vals).map fun x => x.readAs first.type) c.shape (by rw [List.length_map, hlen])
      ⟨unset first.type, fun y hy => by
        obtain ⟨x, -, rfl⟩ := List.mem_map.mp hy
        exact sameType_readAs _ x⟩
      fun val hval => by
        obtain ⟨x, hx, heq⟩ := List.mem_map.mp hval
        obtain ⟨i, hi, rfl⟩ := List.getElem_of_mem hx
        exact inRange_readAs ((List.forall₂_iff_get.mp hall).2 i hi (hall.length_eq ▸ hi)) heq
    refine ⟨first, vals, d, hvals, ?_, hshape, ?_⟩
    · have htype : (p.dataType.getD .notSet).getPrimitive = first.type := by
        obtain ⟨s, rfl, -, htype⟩ := PyScalar.wrap_eq_setVal hfirst
        exact htype
      have hmapM := mapM_unwrapPrimitive F hfirst hall
      rw [← htype] at hmapM
      simp only [List.map_map, Function.comp_def] at hreshape
      change (List.mapM _ ((p :: primitives).map Value.getPrimitive) >>= fun natives =>
        (fun c => some (PyValue.collection c)) <$> np.reshape natives (c.shape.map Int.ofNat)) = _
      rw [hmapM, Fallible.ok_bind, htype, hreshape]
      rfl
    · rw [hitems, List.map_map]
      rfl

/-- **Wrapping and unwrapping are inverse** on a value exactly if the type of the first element
keeps all others. -/
theorem comesBack_iff (hnp : np.RowMajor) {v : PyValue} {w : Value} (hw : v.wrap np = .ok w)
    (hnan : ∀ x ∈ v.scalars np, x.item.isNaN = false) : ComesBack F np w v ↔ v.Kept np := by
  cases v with
  | scalar x =>
    refine iff_of_true ⟨_, unwrap_wrap_scalar F np hw, ?_⟩ trivial
    exact Native.pyEq_self (hnan x List.mem_cons_self)
  | collection c =>
    obtain ⟨first, vals, d, hvals, hunwrap, hshape, hitems⟩ := unwrap_wrap_collection F hnp hw
    have helements : List.Forall₂ (fun x y => Native.pyEq x.item y.item = true) d.elements
        (first :: vals) ↔ ∀ x ∈ first :: vals, x.KeptAs first.type := by
      rw [← List.forall₂_map_left_iff (f := PyScalar.item)
        (R := fun n y => Native.pyEq n (PyScalar.item y) = true), hitems,
        List.forall₂_map_left_iff, List.forall₂_same]
      rw [PyValue.scalars, hvals, Option.getD_some] at hnan
      exact forall₂_congr fun x hx => pyEq_readAs_iff (hnan x hx) _
    constructor
    · rintro ⟨vals', d', hvals', hunwrap', -, hall⟩
      cases hvals.symm.trans hvals'
      cases hunwrap.symm.trans hunwrap'
      intro vals' h first' hfirst'
      cases hvals.symm.trans h
      cases hfirst'
      exact helements.mp hall
    · intro hkept
      exact ⟨_, d, hvals, hunwrap, hshape, helements.mpr (hkept _ hvals first rfl)⟩

/-- Numpy on arrays of Python objects. -/
def objects : Numpy := { elementwise with asarray := fun c => some c.elements }

theorem rowMajor_objects : objects.RowMajor where
  flatten := by
    rintro c vals ⟨⟩
    exact c.rectangular
  reshape := by
    rintro natives shape hlen - hrange
    have hvals : ∃ xs : List NumpyScalar, ((natives.map some).mapM fun v =>
        v >>= fun n => (PyScalar.native n).toNumpy) = some xs ∧
        xs.map NumpyScalar.item = natives.map Native.inArray := by
      clear hlen
      induction natives with
      | nil => exact ⟨[], rfl, rfl⟩
      | cons n natives ih =>
        obtain ⟨xs, hxs, hitems⟩ := ih fun val hval => hrange val (List.mem_cons_of_mem n hval)
        have hn : ∃ x, (PyScalar.native n).toNumpy = some x ∧ x.item = n.inArray := by
          cases n with
          | int val =>
            have hval := hrange val List.mem_cons_self
            exact ⟨_, if_pos hval, congrArg Native.int (toInt_ofInt_of_inRange (by decide) hval)⟩
          | float val | str val | bool val => exact ⟨_, rfl, rfl⟩
        obtain ⟨x, hx, hitem⟩ := hn
        refine ⟨x :: xs, ?_, by rw [List.map_cons, List.map_cons, hitem, hitems]⟩
        rw [List.map_cons, List.mapM_cons, hxs]
        simp [hx]
    obtain ⟨xs, hxs, hitems⟩ := hvals
    have hshape : (shape.map Int.ofNat).map Int.toNat = shape := by simp [Function.comp_def]
    have hlen' : xs.length = ((shape.map Int.ofNat).map Int.toNat).prod := by
      rw [hshape, ← hlen, ← List.length_map (f := NumpyScalar.item), hitems, List.length_map]
    refine ⟨⟨(shape.map Int.ofNat).map Int.toNat, xs.map .numpy, by rw [List.length_map, hlen']⟩,
      ?_, hshape, ?_⟩
    · simp only [objects, elementwise, hxs]
      exact dif_pos hlen'
    · rw [List.map_map]
      exact hitems

/-- The integer 1 and the boolean False. -/
theorem comesBack_iff_false : ∃ w,
    PyValue.wrap objects (.collection ⟨[2], [.native (.int 1), .native (.bool false)], rfl⟩) =
      .ok w ∧
    ComesBack default objects w
      (.collection ⟨[2], [.native (.int 1), .native (.bool false)], rfl⟩) := by
  refine ⟨_, rfl, (comesBack_iff default rowMajor_objects rfl ?_).mpr ?_⟩
  · simp [PyValue.scalars, objects, PyScalar.item, Native.isNaN]
  · rintro vals ⟨⟩ first ⟨⟩
    simp only [List.forall_mem_cons]
    exact ⟨.inl ⟨rfl, rfl⟩, .inr ⟨by decide, rfl⟩, fun x hx => by cases hx⟩

/-- The integers 1 and 2 ^ 40 are wrapped as different types. -/
theorem mixed_integers_lost : ¬ ∀ (v : PyValue) (w : Value), v.wrap objects = .ok w →
    (∀ x ∈ v.scalars objects, x.item.isNaN = false) → ComesBack default objects w v := by
  intro h
  obtain ⟨vals, d, hvals, hunwrap, -, hall⟩ :=
    h (.collection ⟨[2], [.native (.int 1), .native (.int (2 ^ 40))], rfl⟩) _ rfl (by
      simp [PyValue.scalars, objects, PyScalar.item, Native.isNaN])
  cases hvals
  cases hunwrap
  obtain ⟨-, hall⟩ := List.forall₂_cons.mp hall
  have heq : ((PyScalar.native (.int (2 ^ 40))).readAs .int32).inArray.pyEq (.int (2 ^ 40)) =
      true := (List.forall₂_cons.mp hall).1
  rcases (pyEq_readAs_iff rfl .int32).mp heq with ⟨htype, -⟩ | ⟨-, hzero⟩
  · exact absurd htype (by decide)
  · exact absurd (Native.number_int_eq_zero_iff.mp hzero) (by decide)

end Bentobox.Sdk
