import Bentobox.Lib.Fallible

/-!
# Computations in lockstep

Two computations that may fail, on different states and with different results and faults, of
which one does what the other does. `Lockstep` is about one run from a pair of states; what holds
of the results and of the states reached is its postcondition, so it is proved along a program as
a Hoare triple is.
-/
namespace Bentobox.Fallible

section
variable {σ τ ε ε' α α' β β' : Type}

theorem ofExcept_bind (r : Except ε α) (f : α → Except ε β) :
    (ofExcept (r >>= f) : Fallible σ ε β) = ofExcept r >>= fun a => ofExcept (f a) := by
  funext s
  cases r <;> rfl

/-- From `s`, `m` ends as `m'` does from `t`: with results and states that satisfy `post`, or with
the fault that `blame` names, in states that satisfy `failed`. -/
def Lockstep (blame : ε' → ε) (failed : σ → τ → Prop) (post : α → σ → β → τ → Prop)
    (m : Fallible σ ε α) (s : σ) (m' : Fallible τ ε' β) (t : τ) : Prop :=
  match m' t with
  | (.ok b, t') => ∃ a s', m s = (.ok a, s') ∧ post a s' b t'
  | (.error e, t') => ∃ s', m s = (.error (blame e), s') ∧ failed s' t'

namespace Lockstep
variable {blame : ε' → ε} {failed : σ → τ → Prop} {post : α → σ → β → τ → Prop}
  {post' : α' → σ → β' → τ → Prop} {m : Fallible σ ε α} {m' : Fallible τ ε' β} {s s' : σ} {t t' : τ}

/-! ## What it says -/

theorem of_ok {a : α} {b : β} (hm : m s = (.ok a, s')) (hm' : m' t = (.ok b, t'))
    (h : post a s' b t') : Lockstep blame failed post m s m' t := by
  rw [Lockstep, hm']
  exact ⟨a, s', hm, h⟩

theorem of_error {e : ε'} (hm : m s = (.error (blame e), s')) (hm' : m' t = (.error e, t'))
    (h : failed s' t') : Lockstep blame failed post m s m' t := by
  rw [Lockstep, hm']
  exact ⟨s', hm, h⟩

theorem exists_ok (h : Lockstep blame failed post m s m' t) {b : β} (hm' : m' t = (.ok b, t')) :
    ∃ a s', m s = (.ok a, s') ∧ post a s' b t' := by
  rw [Lockstep, hm'] at h
  exact h

theorem exists_error (h : Lockstep blame failed post m s m' t) {e : ε'}
    (hm' : m' t = (.error e, t')) : ∃ s', m s = (.error (blame e), s') ∧ failed s' t' := by
  rw [Lockstep, hm'] at h
  exact h

/-- Only what a computation does from its state counts. -/
theorem of_eq {n : Fallible σ ε α} (hm : m s = n s') (h : Lockstep blame failed post n s' m' t) :
    Lockstep blame failed post m s m' t := by
  rw [Lockstep] at h ⊢
  rw [hm]
  exact h

/-! ## Results -/

theorem pure {a : α} {b : β} (h : post a s b t) :
    Lockstep blame failed post (pure a) s (pure b) t :=
  of_ok rfl rfl h

/-- Both computations succeed or fail as they are told, and their states stay what they are. -/
theorem ofExcept {r : Except ε α} {r' : Except ε' β}
    (hok : ∀ b, r' = .ok b → ∃ a, r = .ok a ∧ post a s b t)
    (herror : ∀ e, r' = .error e → r = .error (blame e) ∧ failed s t) :
    Lockstep blame failed post (Fallible.ofExcept r) s (Fallible.ofExcept r') t := by
  cases hr' : r' with
  | ok b =>
    obtain ⟨a, rfl, h⟩ := hok b hr'
    exact of_ok rfl rfl h
  | error e =>
    obtain ⟨rfl, h⟩ := herror e hr'
    exact of_error rfl rfl h

/-- What is known of the second computation holds of the results. -/
theorem and_run (h : Lockstep blame failed post m s m' t) :
    Lockstep blame failed (fun a s' b t' => post a s' b t' ∧ m' t = (.ok b, t')) m s m' t := by
  rcases hm' : m' t with ⟨e | b, t'⟩
  · obtain ⟨s', hm, hfailed⟩ := h.exists_error hm'
    exact of_error hm hm' hfailed
  · obtain ⟨a, s', hm, hpost⟩ := h.exists_ok hm'
    exact of_ok hm hm' ⟨hpost, rfl⟩

/-! ## Sequences -/

theorem bind {f : α → Fallible σ ε α'} {f' : β → Fallible τ ε' β'}
    (h : Lockstep blame failed post m s m' t)
    (hf : ∀ a s' b t', post a s' b t' → Lockstep blame failed post' (f a) s' (f' b) t') :
    Lockstep blame failed post' (m >>= f) s (m' >>= f') t := by
  rcases hm' : m' t with ⟨e | b, t'⟩
  · obtain ⟨s', hm, hfailed⟩ := h.exists_error hm'
    exact of_error (run_bind_of_error hm) (run_bind_of_error hm') hfailed
  · obtain ⟨a, s', hm, hpost⟩ := h.exists_ok hm'
    have hrest := hf a s' b t' hpost
    rw [Lockstep] at hrest ⊢
    rw [run_bind_of_ok hm', run_bind_of_ok hm]
    exact hrest

/-- A step that only the first computation takes. -/
theorem step {a : α'} {f : α' → Fallible σ ε α} {n : Fallible σ ε α'} (hn : n s = (.ok a, s'))
    (h : Lockstep blame failed post (f a) s' m' t) :
    Lockstep blame failed post (n >>= f) s m' t :=
  of_eq (run_bind_of_ok hn) h

/-- A step that the first computation takes at its end. -/
theorem andThen {f : α → Fallible σ ε α'} {post' : α' → σ → β → τ → Prop}
    (h : Lockstep blame failed post m s m' t)
    (hf : ∀ a s' b t', post a s' b t' → ∃ a' s'', f a s' = (.ok a', s'') ∧ post' a' s'' b t') :
    Lockstep blame failed post' (m >>= f) s m' t := by
  rcases hm' : m' t with ⟨e | b, t'⟩
  · obtain ⟨s', hm, hfailed⟩ := h.exists_error hm'
    exact of_error (run_bind_of_error hm) hm' hfailed
  · obtain ⟨a, s', hm, hpost⟩ := h.exists_ok hm'
    obtain ⟨a', s'', hf, hpost'⟩ := hf a s' b t' hpost
    exact of_ok ((run_bind_of_ok hm).trans hf) hm' hpost'

/-- A step that the second computation takes at its end. -/
theorem left {f' : β → Fallible τ ε' β'} {post' : α → σ → β' → τ → Prop}
    (h : Lockstep blame failed post m s m' t)
    (hf : ∀ a s' b t', post a s' b t' → ∃ b' t'', f' b t' = (.ok b', t'') ∧ post' a s' b' t'') :
    Lockstep blame failed post' m s (m' >>= f') t := by
  rcases hm' : m' t with ⟨e | b, t'⟩
  · obtain ⟨s', hm, hfailed⟩ := h.exists_error hm'
    exact of_error hm (run_bind_of_error hm') hfailed
  · obtain ⟨a, s', hm, hpost⟩ := h.exists_ok hm'
    obtain ⟨b', t'', hf, hpost'⟩ := hf a s' b t' hpost
    exact of_ok hm ((run_bind_of_ok hm').trans hf) hpost'

theorem mono {post₁ : α → σ → β → τ → Prop} (h : Lockstep blame failed post m s m' t)
    (hpost : ∀ a s' b t', post a s' b t' → post₁ a s' b t') :
    Lockstep blame failed post₁ m s m' t := by
  rcases hm' : m' t with ⟨e | b, t'⟩
  · obtain ⟨s', hm, hfailed⟩ := h.exists_error hm'
    exact of_error hm hm' hfailed
  · obtain ⟨a, s', hm, h⟩ := h.exists_ok hm'
    exact of_ok hm hm' (hpost a s' b t' h)

/-- Loops over two lists of the same length, with an invariant of the states. -/
theorem mapEach {γ γ' : Type} {P : σ → τ → Prop} {item : γ → γ' → Prop} {result : α → β → Prop}
    {f : γ → Fallible σ ε α} {f' : γ' → Fallible τ ε' β} {l : List γ} {l' : List γ'}
    (hl : List.Forall₂ item l l')
    (hstep : ∀ x x' s t, item x x' → P s t →
      Lockstep blame failed (fun a s' b t' => result a b ∧ P s' t') (f x) s (f' x') t)
    (hP : P s t) :
    Lockstep blame failed (fun as s' bs t' => List.Forall₂ result as bs ∧ P s' t')
      (Fallible.mapEach f l) s (Fallible.mapEach f' l') t := by
  induction hl generalizing s t with
  | nil => exact pure ⟨.nil, hP⟩
  | cons hitem _ ih =>
    refine (hstep _ _ s t hitem hP).bind fun a s₁ b t₁ ⟨hab, hP₁⟩ => ?_
    exact (ih hP₁).bind fun as s₂ bs t₂ ⟨habs, hP₂⟩ => pure ⟨.cons hab habs, hP₂⟩

end Lockstep
end
end Bentobox.Fallible
