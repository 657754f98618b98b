import Mathlib.Data.List.Basic

/-!
# Stateful computations that may fail

`Fallible σ ε α` runs on a state and ends in a result or a fault. The state
reached is kept in both cases: a failing computation does not undo what it did
before it failed. `Refines` compares a computation with one on an abstract state.
-/
namespace Bentobox

universe u

/-- A computation on states `σ` that returns an `α` or stops with a fault `ε`. -/
def Fallible (σ ε α : Type) := σ → Except ε α × σ

namespace Fallible
variable {σ τ ε α β : Type}

/-! ## Results -/

@[simp] theorem ok_bind (a : α) (f : α → Except ε β) : (Except.ok a >>= f) = f a := rfl
@[simp] theorem error_bind (e : ε) (f : α → Except ε β) :
    (Except.error e >>= f) = .error e := rfl
@[simp] theorem map_ok (f : α → β) (a : α) : f <$> (Except.ok a : Except ε α) = .ok (f a) := rfl
@[simp] theorem map_error (f : α → β) (e : ε) :
    f <$> (Except.error e : Except ε α) = .error e := rfl

theorem map_eq_ok_iff {f : α → β} {r : Except ε α} {b : β} :
    f <$> r = .ok b ↔ ∃ a, r = .ok a ∧ f a = b := by
  cases r <;> simp

theorem map_eq_error_iff {f : α → β} {r : Except ε α} {e : ε} :
    f <$> r = .error e ↔ r = .error e := by
  cases r <;> simp

theorem result_bind_eq_ok_iff {r : Except ε α} {f : α → Except ε β} {b : β} :
    (r >>= f) = .ok b ↔ ∃ a, r = .ok a ∧ f a = .ok b := by
  cases r <;> simp

theorem result_bind_eq_error_iff {r : Except ε α} {f : α → Except ε β} {e : ε} :
    (r >>= f) = .error e ↔ r = .error e ∨ ∃ a, r = .ok a ∧ f a = .error e := by
  cases r <;> simp

/-- All results of a list of computations that succeed. -/
theorem mapM_eq_ok {f : α → Except ε β} {as : List α} {bs : List β} (h : as.mapM f = .ok bs) :
    List.Forall₂ (fun a b => f a = .ok b) as bs := by
  induction as generalizing bs with
  | nil =>
    cases h
    exact .nil
  | cons a as ih =>
    rw [List.mapM_cons] at h
    obtain ⟨b, hb, h⟩ := result_bind_eq_ok_iff.mp h
    obtain ⟨bs', hbs, h⟩ := result_bind_eq_ok_iff.mp h
    cases h
    exact .cons hb (ih hbs)

theorem toOption_eq_some_iff {r : Except ε α} {a : α} : r.toOption = some a ↔ r = .ok a := by
  cases r <;> simp [Except.toOption]

theorem mapError_eq_ok_iff {ε' : Type*} {f : ε → ε'} {r : Except ε α} {a : α} :
    r.mapError f = .ok a ↔ r = .ok a := by
  cases r <;> simp [Except.mapError]

/-- Two results with the same value, or both none, continue alike. -/
theorem toOption_bind_congr {r r' : Except ε α} (h : r'.toOption = r.toOption)
    (f : α → Except ε β) : (r' >>= f).toOption = (r >>= f).toOption := by
  cases r <;> cases r' <;> cases h <;> rfl

/-! ## Computations on a state -/

/-- Run `f` on the result; after a fault stop and keep the state. -/
def andThen (m : Fallible σ ε α) (f : α → Fallible σ ε β) : Fallible σ ε β := fun s =>
  match m s with
  | (.ok a, s') => f a s'
  | (.error e, s') => (.error e, s')

instance : Monad (Fallible σ ε) where
  pure a := fun s => (.ok a, s)
  bind := andThen

/-- A computation that does not touch the state. -/
def ofExcept (r : Except ε α) : Fallible σ ε α := fun s => (r, s)

def raise (e : ε) : Fallible σ ε α := fun s => (.error e, s)

/-- Read from the state, which may itself be impossible. -/
def reads (f : σ → Except ε α) : Fallible σ ε α := fun s => (f s, s)

@[simp] theorem run_pure (a : α) (s : σ) : (pure a : Fallible σ ε α) s = (.ok a, s) := rfl
@[simp] theorem run_ofExcept (r : Except ε α) (s : σ) :
    (ofExcept r : Fallible σ ε α) s = (r, s) := rfl
@[simp] theorem run_raise (e : ε) (s : σ) : (raise e : Fallible σ ε α) s = (.error e, s) := rfl
@[simp] theorem run_reads (f : σ → Except ε α) (s : σ) : reads f s = (f s, s) := rfl

theorem run_bind (m : Fallible σ ε α) (f : α → Fallible σ ε β) (s : σ) :
    (m >>= f) s = match m s with
      | (.ok a, s') => f a s'
      | (.error e, s') => (.error e, s') := rfl

theorem run_bind_of_ok {m : Fallible σ ε α} {f : α → Fallible σ ε β} {s s' : σ} {a : α}
    (h : m s = (.ok a, s')) : (m >>= f) s = f a s' := by
  rw [run_bind, h]

theorem run_bind_of_error {m : Fallible σ ε α} {f : α → Fallible σ ε β} {s s' : σ} {e : ε}
    (h : m s = (.error e, s')) : (m >>= f) s = (.error e, s') := by
  rw [run_bind, h]

theorem bind_assoc {γ : Type} (m : Fallible σ ε α) (f : α → Fallible σ ε β)
    (g : β → Fallible σ ε γ) : (m >>= f) >>= g = m >>= fun a => f a >>= g := by
  funext s
  simp only [run_bind]
  rcases m s with ⟨e | a, s'⟩ <;> rfl

/-- A sequence succeeds exactly when both parts do. -/
theorem bind_eq_ok_iff {m : Fallible σ ε α} {f : α → Fallible σ ε β} {s s'' : σ} {b : β} :
    (m >>= f) s = (.ok b, s'') ↔ ∃ a s', m s = (.ok a, s') ∧ f a s' = (.ok b, s'') := by
  constructor
  · intro h
    rcases hm : m s with ⟨r | a, s'⟩
    · rw [run_bind_of_error hm] at h; cases h
    · rw [run_bind_of_ok hm] at h; exact ⟨a, s', rfl, h⟩
  · rintro ⟨a, s', hm, hf⟩
    rw [run_bind_of_ok hm, hf]

/-- A sequence fails in its first part or, after that succeeded, in its second. -/
theorem bind_eq_error_iff {m : Fallible σ ε α} {f : α → Fallible σ ε β} {s s'' : σ} {e : ε} :
    (m >>= f) s = (.error e, s'') ↔ m s = (.error e, s'') ∨
      ∃ a s', m s = (.ok a, s') ∧ f a s' = (.error e, s'') := by
  constructor
  · intro h
    rcases hm : m s with ⟨r | a, s'⟩
    · rw [run_bind_of_error hm] at h; cases h; exact .inl rfl
    · rw [run_bind_of_ok hm] at h; exact .inr ⟨a, s', rfl, h⟩
  · rintro (hm | ⟨a, s', hm, hf⟩)
    · exact run_bind_of_error hm
    · rw [run_bind_of_ok hm, hf]

/-! ## Running a list of steps -/

/-- Run a step for each element, stopping at the first fault. -/
def forEach (f : α → Fallible σ ε Unit) : List α → Fallible σ ε Unit
  | [] => pure ()
  | a :: l => do
    f a
    forEach f l

theorem forEach_singleton (f : α → Fallible σ ε Unit) (a : α) : forEach f [a] = f a := by
  funext s
  rw [forEach, run_bind]
  rcases f a s with ⟨_ | ⟨⟩, s'⟩ <;> rfl

theorem forEach_map {γ : Type} (f : α → Fallible σ ε Unit) (g : γ → α) (l : List γ) :
    forEach f (l.map g) = forEach (fun c => f (g c)) l := by
  induction l with
  | nil => rfl
  | cons c l ih => rw [List.map_cons, forEach, forEach, ih]

theorem forEach_append (f : α → Fallible σ ε Unit) (l₁ l₂ : List α) :
    forEach f (l₁ ++ l₂) = (forEach f l₁ >>= fun _ => forEach f l₂) := by
  induction l₁ with
  | nil => rfl
  | cons a l ih =>
    funext s
    rw [List.cons_append, forEach, ih, run_bind, forEach, run_bind, run_bind]
    rcases f a s with ⟨_ | ⟨⟩, s'⟩ <;> rfl

theorem forEach_append_of_ok {f : α → Fallible σ ε Unit} {l₁ : List α} (l₂ : List α) {s s' : σ}
    (h : forEach f l₁ s = (.ok (), s')) : forEach f (l₁ ++ l₂) s = forEach f l₂ s' := by
  induction l₁ generalizing s with
  | nil => cases h; rfl
  | cons a l ih =>
    obtain ⟨_, s₁, ha, hl⟩ := bind_eq_ok_iff.mp h
    rw [List.cons_append, forEach, run_bind_of_ok ha, ih hl]

theorem forEach_append_of_error {f : α → Fallible σ ε Unit} {l₁ : List α} (l₂ : List α)
    {s s' : σ} {e : ε} (h : forEach f l₁ s = (.error e, s')) :
    forEach f (l₁ ++ l₂) s = (.error e, s') := by
  induction l₁ generalizing s with
  | nil => cases h
  | cons a l ih =>
    rcases bind_eq_error_iff.mp h with ha | ⟨_, s₁, ha, hl⟩
    · exact run_bind_of_error ha
    · exact (run_bind_of_ok ha).trans (ih hl)

theorem forEach_append_eq_ok_iff {f : α → Fallible σ ε Unit} {l₁ l₂ : List α} {s s' : σ} :
    forEach f (l₁ ++ l₂) s = (.ok (), s') ↔
      ∃ s₁, forEach f l₁ s = (.ok (), s₁) ∧ forEach f l₂ s₁ = (.ok (), s') := by
  induction l₁ generalizing s with
  | nil =>
    constructor
    · intro h; exact ⟨s, rfl, h⟩
    · rintro ⟨_, h, h'⟩; cases h; exact h'
  | cons a l ih =>
    simp only [List.cons_append, forEach, bind_eq_ok_iff, ih]
    constructor
    · rintro ⟨u, s₁, ha, s₂, hl, h⟩; exact ⟨s₂, ⟨u, s₁, ha, hl⟩, h⟩
    · rintro ⟨s₂, ⟨u, s₁, ha, hl⟩, h⟩; exact ⟨u, s₁, ha, s₂, hl, h⟩

/-- A run that fails did so at one element, after all elements before it succeeded. -/
theorem forEach_eq_error_iff {f : α → Fallible σ ε Unit} {l : List α} {s s' : σ} {e : ε} :
    forEach f l s = (.error e, s') ↔ ∃ pre a post s₁, l = pre ++ a :: post ∧
      forEach f pre s = (.ok (), s₁) ∧ f a s₁ = (.error e, s') := by
  constructor
  · intro h
    induction l generalizing s with
    | nil => cases h
    | cons a l ih =>
      rcases bind_eq_error_iff.mp h with ha | ⟨_, s₁, ha, hl⟩
      · exact ⟨[], a, l, s, rfl, rfl, ha⟩
      · obtain ⟨pre, b, post, s₂, rfl, hpre, hb⟩ := ih hl
        exact ⟨a :: pre, b, post, s₂, rfl, bind_eq_ok_iff.mpr ⟨(), s₁, ha, hpre⟩, hb⟩
  · rintro ⟨pre, a, post, s₁, rfl, hpre, ha⟩
    rw [forEach_append_of_ok _ hpre, forEach, run_bind_of_error ha]

/-- Run a step for each element and collect the results, stopping at the first fault. -/
def mapEach (f : α → Fallible σ ε β) : List α → Fallible σ ε (List β)
  | [] => pure []
  | a :: l => do
    let b ← f a
    let bs ← mapEach f l
    pure (b :: bs)

/-- Rename the fault of a computation. -/
def mapFault {ε' : Type} (f : ε → ε') (m : Fallible σ ε α) : Fallible σ ε' α := fun s =>
  match m s with
  | (.ok a, s') => (.ok a, s')
  | (.error e, s') => (.error (f e), s')

theorem mapFault_bind {ε' : Type} (f : ε → ε') (m : Fallible σ ε α)
    (g : α → Fallible σ ε β) :
    (m >>= g).mapFault f = (m.mapFault f >>= fun a => (g a).mapFault f) := by
  funext s
  simp only [mapFault, run_bind]
  rcases m s with ⟨_ | a, s'⟩ <;> rfl

theorem mapFault_forEach {ε' : Type} (f : ε → ε') (m : α → Fallible σ ε Unit) (l : List α) :
    (forEach m l).mapFault f = forEach (fun a => (m a).mapFault f) l := by
  induction l with
  | nil => rfl
  | cons a l ih => rw [forEach, mapFault_bind, ih]; rfl

theorem mapFault_eq_ok_iff {ε' : Type} {f : ε → ε'} {m : Fallible σ ε α} {s s' : σ} {a : α} :
    m.mapFault f s = (.ok a, s') ↔ m s = (.ok a, s') := by
  rw [mapFault]
  rcases m s with ⟨_ | b, t⟩ <;> simp

theorem mapFault_eq_error_iff {ε' : Type} {f : ε → ε'} {m : Fallible σ ε α} {s s' : σ} {e' : ε'} :
    m.mapFault f s = (.error e', s') ↔ ∃ e, m s = (.error e, s') ∧ f e = e' := by
  rw [mapFault]
  rcases m s with ⟨e | b, t⟩ <;> simp [and_comm]

/-- What holds of every successful run holds of this one. -/
theorem forall_eq_ok_iff {m : Fallible σ ε α} {s s' : σ} {a : α} (h : m s = (.ok a, s'))
    {P : α → σ → Prop} : (∀ a' t, m s = (.ok a', t) → P a' t) ↔ P a s' := by
  refine ⟨fun hP => hP a s' h, fun hP a' t h' => ?_⟩
  rw [h] at h'
  cases h'
  exact hP

/-! ## Invariants -/

/-- The computation keeps `P`, whether it succeeds or fails. -/
def Keeps (P : σ → Prop) (m : Fallible σ ε α) : Prop := ∀ s, P s → P (m s).2

theorem Keeps.run {P : σ → Prop} {m : Fallible σ ε α} (h : Keeps P m) {s s' : σ}
    {r : Except ε α} (hs : P s) (hm : m s = (r, s')) : P s' := by
  have hkept := h s hs
  rwa [hm] at hkept

theorem Keeps.pure {P : σ → Prop} (a : α) : Keeps P (pure a : Fallible σ ε α) := fun _ h => h

theorem Keeps.ofExcept {P : σ → Prop} (r : Except ε α) :
    Keeps P (Fallible.ofExcept r : Fallible σ ε α) := fun _ h => h

theorem Keeps.bind {P : σ → Prop} {m : Fallible σ ε α} {f : α → Fallible σ ε β}
    (hm : Keeps P m) (hf : ∀ a, Keeps P (f a)) : Keeps P (m >>= f) := by
  intro s hs
  have hP := hm s hs
  rcases h : m s with ⟨_ | a, s'⟩
  · rw [h] at hP
    rwa [run_bind_of_error h]
  · rw [h] at hP
    rw [run_bind_of_ok h]
    exact hf a s' hP

/-- Two continuations that agree where the invariant holds. -/
theorem Keeps.bind_congr {P : σ → Prop} {m : Fallible σ ε α} {f g : α → Fallible σ ε β}
    (hm : Keeps P m) {s : σ} (hs : P s) (h : ∀ a s', P s' → f a s' = g a s') :
    (m >>= f) s = (m >>= g) s := by
  have hs' := hm s hs
  simp only [run_bind]
  rcases hrun : m s with ⟨e | a, s'⟩
  · rfl
  · rw [hrun] at hs'
    exact h a s' hs'

theorem Keeps.forEach {P : σ → Prop} {f : α → Fallible σ ε Unit} {l : List α}
    (hf : ∀ a ∈ l, Keeps P (f a)) : Keeps P (Fallible.forEach f l) := by
  induction l with
  | nil => exact Keeps.pure ()
  | cons a l ih =>
    exact (hf a (by simp)).bind fun _ => ih fun b hb => hf b (by simp [hb])

theorem Keeps.mapEach {P : σ → Prop} {f : α → Fallible σ ε β} {l : List α}
    (hf : ∀ a ∈ l, Keeps P (f a)) : Keeps P (Fallible.mapEach f l) := by
  induction l with
  | nil => exact Keeps.pure []
  | cons a l ih =>
    exact (hf a (by simp)).bind fun b => (ih fun c hc => hf c (by simp [hc])).bind fun bs =>
      Keeps.pure _

/-- A sequence has a value when its first part has one, and its second part has one wherever the
first may lead. -/
theorem toOption_bind {P : σ → Prop} {m : Fallible σ ε α} {f : α → Fallible σ ε β} {s : σ}
    (hP : P (m s).2) {x : Option α} (hm : (m s).1.toOption = x) {g : α → Option β}
    (hf : ∀ a t, P t → (f a t).1.toOption = g a) : ((m >>= f) s).1.toOption = x.bind g := by
  rw [run_bind]
  rcases h : m s with ⟨e | a, t⟩
  · rw [h] at hm
    subst hm
    rfl
  · rw [h] at hm hP
    subst hm
    exact hf a t hP

/-! ## Faults that do not happen -/

/-- The computation does not stop with a fault that is `bad`. -/
def Avoids (bad : ε → Prop) (m : Fallible σ ε α) : Prop :=
  ∀ s e s', m s = (.error e, s') → ¬ bad e

theorem Avoids.pure {bad : ε → Prop} (a : α) : Avoids bad (pure a : Fallible σ ε α) := by
  rintro s e s' ⟨⟩

theorem Avoids.ofExcept {bad : ε → Prop} {r : Except ε α} (hr : ∀ e, r = .error e → ¬ bad e) :
    Avoids bad (Fallible.ofExcept r : Fallible σ ε α) :=
  fun _ e _ h => hr e (Prod.ext_iff.mp h).1

/-- The second part has to avoid the faults after the results that the first part has. -/
theorem Avoids.bind {bad : ε → Prop} {m : Fallible σ ε α} {f : α → Fallible σ ε β}
    (hm : Avoids bad m) (hf : ∀ a s s', m s = (.ok a, s') → Avoids bad (f a)) :
    Avoids bad (m >>= f) := by
  intro s e s' h
  rcases bind_eq_error_iff.mp h with h | ⟨a, s₁, ha, h⟩
  · exact hm s e s' h
  · exact hf a s s₁ ha s₁ e s' h

theorem Avoids.mapEach {bad : ε → Prop} {f : α → Fallible σ ε β} {l : List α}
    (hf : ∀ a ∈ l, Avoids bad (f a)) : Avoids bad (Fallible.mapEach f l) := by
  induction l with
  | nil => exact Avoids.pure []
  | cons a l ih =>
    refine (hf a (by simp)).bind fun b _ _ _ => ?_
    exact (ih fun c hc => hf c (by simp [hc])).bind fun bs _ _ _ => Avoids.pure _

/-! ## Computations that are alike -/

/-- The computations have the same value and the same effect; their faults may be different. -/
def Alike (m m' : Fallible σ ε α) : Prop :=
  ∀ s, (m s).1.toOption = (m' s).1.toOption ∧ (m s).2 = (m' s).2

theorem Alike.refl (m : Fallible σ ε α) : Alike m m := fun _ => ⟨rfl, rfl⟩

theorem Alike.trans {m₁ m₂ m₃ : Fallible σ ε α} (h : Alike m₁ m₂) (h' : Alike m₂ m₃) :
    Alike m₁ m₃ := fun s => ⟨(h s).1.trans (h' s).1, (h s).2.trans (h' s).2⟩

theorem Alike.ofExcept {r r' : Except ε α} (h : r.toOption = r'.toOption) :
    Alike (Fallible.ofExcept r : Fallible σ ε α) (Fallible.ofExcept r') := fun _ => ⟨h, rfl⟩

theorem Alike.bind {m m' : Fallible σ ε α} {f f' : α → Fallible σ ε β} (hm : Alike m m')
    (hf : ∀ a, Alike (f a) (f' a)) : Alike (m >>= f) (m' >>= f') := by
  intro s
  obtain ⟨hval, hst⟩ := hm s
  rcases h : m s with ⟨e | a, t⟩ <;> rcases h' : m' s with ⟨e' | a', t'⟩ <;> rw [h, h'] at hval hst
  · rw [run_bind_of_error h, run_bind_of_error h']
    exact ⟨rfl, hst⟩
  · cases hval
  · cases hval
  · rw [run_bind_of_ok h, run_bind_of_ok h']
    obtain rfl : a = a' := Option.some.inj hval
    obtain rfl : t = t' := hst
    exact hf a t

/-! ## Results that the state does not decide -/

/-- On states with `P` the computation has the result `r`, and it keeps `P`. -/
def Computes (P : σ → Prop) (m : Fallible σ ε α) (r : Except ε α) : Prop :=
  ∀ s, P s → (m s).1 = r ∧ P (m s).2

theorem Computes.pure {P : σ → Prop} (a : α) :
    Computes P (pure a : Fallible σ ε α) (.ok a) := fun _ h => ⟨rfl, h⟩

theorem Computes.ofExcept {P : σ → Prop} (r : Except ε α) :
    Computes P (Fallible.ofExcept r) r := fun _ h => ⟨rfl, h⟩

theorem Computes.bind {P : σ → Prop} {m : Fallible σ ε α} {r : Except ε α}
    {f : α → Fallible σ ε β} {g : α → Except ε β} (hm : Computes P m r)
    (hf : ∀ a, Computes P (f a) (g a)) : Computes P (m >>= f) (r >>= g) := by
  intro s hs
  obtain ⟨hr, hP⟩ := hm s hs
  rcases h : m s with ⟨e | a, s'⟩
  · rw [h] at hr hP
    subst hr
    rw [run_bind_of_error h]
    exact ⟨rfl, hP⟩
  · rw [h] at hr hP
    subst hr
    rw [run_bind_of_ok h]
    exact hf a s' hP

/-! ## Refinement -/

/-- Seen through the abstraction `view`, on states with `P`, the computation `m` has the
result and the effect of `m'`, and it keeps `P`. -/
def Refines (P : σ → Prop) (view : σ → τ) (m : Fallible σ ε α) (m' : Fallible τ ε α) : Prop :=
  ∀ s, P s → (m s).1 = (m' (view s)).1 ∧ view (m s).2 = (m' (view s)).2 ∧ P (m s).2

variable {P : σ → Prop} {view : σ → τ}

theorem Refines.eq {m : Fallible σ ε α} {m' : Fallible τ ε α} (h : Refines P view m m') {s : σ}
    (hs : P s) : m' (view s) = ((m s).1, view (m s).2) := by
  obtain ⟨h₁, h₂, _⟩ := h s hs
  rw [h₁, h₂]

theorem Refines.keeps {m : Fallible σ ε α} {m' : Fallible τ ε α} (h : Refines P view m m') :
    Keeps P m := fun s hs => (h s hs).2.2

theorem Refines.pure (a : α) :
    Refines P view (pure a : Fallible σ ε α) (pure a) := fun _ h => ⟨rfl, rfl, h⟩

theorem Refines.ofExcept (r : Except ε α) :
    Refines P view (Fallible.ofExcept r) (Fallible.ofExcept r) := fun _ h => ⟨rfl, rfl, h⟩

theorem Refines.bind {m : Fallible σ ε α} {m' : Fallible τ ε α} {f : α → Fallible σ ε β}
    {f' : α → Fallible τ ε β} (hm : Refines P view m m') (hf : ∀ a, Refines P view (f a) (f' a)) :
    Refines P view (m >>= f) (m' >>= f') := by
  intro s hs
  have hP := hm.keeps s hs
  have he := hm.eq hs
  rcases h : m s with ⟨_ | a, s'⟩
  · rw [h] at he hP
    rw [run_bind_of_error h, run_bind_of_error he]
    exact ⟨rfl, rfl, hP⟩
  · rw [h] at he hP
    rw [run_bind_of_ok h, run_bind_of_ok he]
    exact hf a s' hP

theorem Refines.mapFault {ε' : Type} (f : ε → ε') {m : Fallible σ ε α} {m' : Fallible τ ε α}
    (hm : Refines P view m m') : Refines P view (m.mapFault f) (m'.mapFault f) := by
  intro s hs
  have hP := hm.keeps s hs
  unfold Fallible.mapFault
  rw [hm.eq hs]
  rcases h : m s with ⟨_ | a, s'⟩ <;> rw [h] at hP <;> exact ⟨rfl, rfl, hP⟩

theorem Refines.forEach {f : α → Fallible σ ε Unit} {f' : α → Fallible τ ε Unit}
    (hf : ∀ a, Refines P view (f a) (f' a)) (l : List α) :
    Refines P view (Fallible.forEach f l) (Fallible.forEach f' l) := by
  induction l with
  | nil => exact Refines.pure ()
  | cons a l ih => exact (hf a).bind fun _ => ih

end Fallible
end Bentobox
