import Bentobox.Lib.Fallible
import Mathlib.Algebra.GroupWithZero.Nat

/-!
# Computations that keep a log

A computation may note results under a key. `Notes k lo hi` bounds how often it notes one
under the key `k`; a computation that fails may have noted less than `lo`.
-/
namespace Bentobox

/-- A state with the notes taken so far, in their order. -/
abbrev Logged (σ κ ν : Type) := σ × List (κ × ν)

section
variable {κ ν : Type} [DecidableEq κ]

/-- How many notes were taken under a key. -/
def notes (log : List (κ × ν)) (k : κ) : ℕ := (log.map Prod.fst).count k

@[simp] theorem notes_nil (k : κ) : notes ([] : List (κ × ν)) k = 0 := rfl

@[simp] theorem notes_append_singleton (log : List (κ × ν)) (k k' : κ) (v : ν) :
    notes (log ++ [(k', v)]) k = notes log k + if k' = k then 1 else 0 := by
  simp [notes, List.count_singleton]

/-- All notes under a key that was used once are the same. -/
theorem eq_of_notes_le_one {log : List (κ × ν)} {k : κ} {v w : ν} (h : notes log k ≤ 1)
    (hv : (k, v) ∈ log) (hw : (k, w) ∈ log) : v = w := by
  induction log with
  | nil => cases hv
  | cons entry log ih =>
    have hpos : ∀ u, (k, u) ∈ log → 0 < (log.map Prod.fst).count k := fun u hu =>
      List.count_pos_iff.mpr (List.mem_map_of_mem hu)
    simp only [notes, List.map_cons, List.count_cons] at h ih
    rcases List.mem_cons.mp hv with hv | hv <;> rcases List.mem_cons.mp hw with hw | hw
    · rw [← hv] at hw
      cases hw
      rfl
    · have := hpos w hw
      simp only [← hv, beq_self_eq_true, if_true] at h
      omega
    · have := hpos v hv
      simp only [← hw, beq_self_eq_true, if_true] at h
      omega
    · exact ih (by omega) hv hw

end

namespace Fallible
variable {σ ε κ ν α β : Type}

/-- Run a computation without taking notes. -/
def silently (m : Fallible σ ε α) : Fallible (Logged σ κ ν) ε α := fun s =>
  ((m s.1).1, (m s.1).2, s.2)

/-- Run a computation and note its result. -/
def noting (k : κ) (m : Fallible σ ε ν) : Fallible (Logged σ κ ν) ε ν := fun s =>
  match m s.1 with
  | (.ok v, t) => (.ok v, t, s.2 ++ [(k, v)])
  | (.error e, t) => (.error e, t, s.2)

theorem silently_refines (m : Fallible σ ε α) :
    Refines (fun _ => True) Prod.fst (silently m : Fallible (Logged σ κ ν) ε α) m :=
  fun _ _ => ⟨rfl, rfl, trivial⟩

/-- Taking notes changes neither the result nor the state. -/
theorem noting_refines (k : κ) (m : Fallible σ ε ν) :
    Refines (fun _ => True) Prod.fst (noting k m : Fallible (Logged σ κ ν) ε ν) m := by
  intro s _
  rw [noting]
  rcases m s.1 with ⟨_ | v, t⟩ <;> exact ⟨rfl, rfl, trivial⟩

variable [DecidableEq κ]

/-- At most `hi` notes are taken under a key, and at least `lo` if the computation succeeds. -/
def Notes (k : κ) (lo hi : ℕ) (m : Fallible (Logged σ κ ν) ε α) : Prop :=
  ∀ s, notes (m s).2.2 k ≤ notes s.2 k + hi ∧
    ∀ a, (m s).1 = .ok a → notes s.2 k + lo ≤ notes (m s).2.2 k

namespace Notes
variable {k : κ} {lo hi lo' hi' : ℕ}

theorem silently (m : Fallible σ ε α) :
    Notes k 0 0 (silently m : Fallible (Logged σ κ ν) ε α) :=
  fun _ => ⟨Nat.le_refl _, fun _ _ => Nat.le_refl _⟩

theorem pure (a : α) : Notes k 0 0 (pure a : Fallible (Logged σ κ ν) ε α) :=
  silently (Pure.pure a)

theorem ofExcept (r : Except ε α) :
    Notes k 0 0 (Fallible.ofExcept r : Fallible (Logged σ κ ν) ε α) :=
  silently (Fallible.ofExcept r)

theorem noting (k k' : κ) (m : Fallible σ ε ν) :
    Notes k (if k' = k then 1 else 0) (if k' = k then 1 else 0)
      (noting k' m : Fallible (Logged σ κ ν) ε ν) := by
  intro s
  rw [Fallible.noting]
  rcases m s.1 with ⟨e | v, t⟩
  · exact ⟨Nat.le_add_right _ _, by rintro a ⟨⟩⟩
  · simp

theorem mono {m : Fallible (Logged σ κ ν) ε α} (h : Notes k lo hi m) (hlo : lo' ≤ lo)
    (hhi : hi ≤ hi') : Notes k lo' hi' m := by
  intro s
  obtain ⟨hle, hge⟩ := h s
  exact ⟨by omega, fun a ha => by have := hge a ha; omega⟩

/-- A sequence takes the notes of both parts. -/
theorem bind {m : Fallible (Logged σ κ ν) ε α} {f : α → Fallible (Logged σ κ ν) ε β}
    (hm : Notes k lo hi m) (hf : ∀ a, Notes k lo' hi' (f a)) :
    Notes k (lo + lo') (hi + hi') (m >>= f) := by
  intro s
  obtain ⟨hle, hge⟩ := hm s
  rcases h : m s with ⟨e | a, t⟩
  · rw [h] at hle
    rw [run_bind_of_error h]
    exact ⟨by omega, by rintro b ⟨⟩⟩
  · rw [h] at hle hge
    have hle₁ : notes t.2 k ≤ notes s.2 k + hi := hle
    have hge₁ : notes s.2 k + lo ≤ notes t.2 k := hge a rfl
    obtain ⟨hle', hge'⟩ := hf a t
    rw [run_bind_of_ok h]
    exact ⟨by omega, fun b hb => by have := hge' b hb; omega⟩

/-- What a list of steps notes is bounded by the sums. -/
theorem forEach {lo hi : α → ℕ} {f : α → Fallible (Logged σ κ ν) ε Unit} {l : List α}
    (hf : ∀ a ∈ l, Notes k (lo a) (hi a) (f a)) :
    Notes k (l.map lo).sum (l.map hi).sum (Fallible.forEach f l) := by
  induction l with
  | nil => exact Notes.pure ()
  | cons a l ih =>
    rw [List.map_cons, List.map_cons, List.sum_cons, List.sum_cons]
    exact (hf a (by simp)).bind fun _ => ih fun b hb => hf b (by simp [hb])

end Notes
end Fallible
end Bentobox
