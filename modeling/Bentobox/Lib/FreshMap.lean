import Mathlib.Data.Set.Card
import Bentobox.Lib.Machine

/-!
# Finite maps with fresh keys

What a container promises that hands out a key for every item: a key is never handed out
twice, an item is found under its key until it is removed, and nothing that is done to one
item is seen at another. Which key is handed out is left open, so a container is compared
with this map by a simulation. Some items are stored but cannot be reached (`readable`).
-/
namespace Bentobox

/-- The keys handed out so far, and the items that are stored. -/
@[ext] structure FreshMap (κ α : Type) where
  issued : Set κ
  content : κ → Option α

namespace FreshMap
variable {κ α : Type}

/-- `reach` returns a reference to an item, through which it is changed at once. -/
inductive Call (κ α : Type)
  | add (a : α)
  | remove (k : κ)
  | reach (k : κ) (f : α → α)
  | size

inductive Answer (κ α : Type)
  | key (k : κ)
  | item (a : α)
  | size (n : ℕ)
  | done
  | throws

/-- The key of a call, which `add` gets from its answer. -/
def concerns : Call κ α → Answer κ α → Option κ
  | .add _, .key k => some k
  | .remove k, _ | .reach k _, _ => some k
  | _, _ => none

def Answer.key? : Answer κ α → Option κ
  | key k => some k
  | _ => none

def empty : FreshMap κ α := ⟨∅, fun _ => none⟩

/-- The keys of the items that are stored. -/
def live (m : FreshMap κ α) : Set κ := {k | (m.content k).isSome}

variable [DecidableEq κ]

/-- Store an item under a key, or nothing. -/
def set (m : FreshMap κ α) (k : κ) (a : Option α) : FreshMap κ α :=
  ⟨m.issued, fun k' => if k' = k then a else m.content k'⟩

/-- What a call may answer and lead to. -/
inductive Step (readable : α → Prop) :
    FreshMap κ α → Call κ α → Answer κ α → FreshMap κ α → Prop
  | add {m : FreshMap κ α} {k : κ} (a : α) (hk : k ∉ m.issued) :
    Step readable m (.add a) (.key k) { m.set k (some a) with issued := insert k m.issued }
  | remove {m : FreshMap κ α} {k : κ} {a : α} (hk : m.content k = some a) :
    Step readable m (.remove k) .done (m.set k none)
  | removeAbsent {m : FreshMap κ α} {k : κ} (hk : m.content k = none) :
    Step readable m (.remove k) .throws m
  | reach {m : FreshMap κ α} {k : κ} {a : α} (f : α → α) (hk : m.content k = some a)
    (ha : readable a) : Step readable m (.reach k f) (.item a) (m.set k (some (f a)))
  | reachAbsent {m : FreshMap κ α} {k : κ} (f : α → α)
    (hk : ∀ a, m.content k = some a → ¬ readable a) : Step readable m (.reach k f) .throws m
  | size (m : FreshMap κ α) : Step readable m .size (.size m.live.ncard) m

variable {readable : α → Prop} {m m' : FreshMap κ α} {c : Call κ α} {o : Answer κ α}

/-- **Frame**: a call leaves the items under all other keys as they are. -/
theorem Step.frame (h : Step readable m c o m') {k : κ} (hk : concerns c o ≠ some k) :
    m'.content k = m.content k := by
  cases h with
  | add a hk' =>
    have hne : k ≠ _ := fun heq => hk (congrArg some heq.symm)
    exact if_neg hne
  | remove hk' | reach f hk' ha =>
    have hne : k ≠ _ := fun heq => hk (congrArg some heq.symm)
    exact if_neg hne
  | removeAbsent | reachAbsent | size => rfl

/-- A key that is answered was not handed out before. -/
theorem Step.key_fresh (h : Step readable m c o m') {k : κ} (hk : o.key? = some k) :
    k ∉ m.issued ∧ k ∈ m'.issued := by
  cases h with
  | add a hk' =>
    cases hk
    exact ⟨hk', Set.mem_insert _ _⟩
  | _ => cases hk

theorem Step.issued_mono (h : Step readable m c o m') : m.issued ⊆ m'.issued := by
  cases h with
  | add a hk => exact Set.subset_insert _ _
  | _ => exact fun _ hk => hk

/-- **Keys are never handed out twice** in a run. -/
theorem nodup_keys {cs : List (Call κ α)} {os : List (Answer κ α)}
    (h : Machine.Runs (Step readable) m cs os m') :
    (os.filterMap Answer.key?).Nodup ∧ ∀ k ∈ os.filterMap Answer.key?, k ∉ m.issued := by
  induction h with
  | nil => simp
  | @cons t t' t'' i is o os h _ ih =>
    obtain ⟨hnodup, hnew⟩ := ih
    have hold : ∀ k ∈ os.filterMap Answer.key?, k ∉ t.issued :=
      fun k hk hm => hnew k hk (h.issued_mono hm)
    cases ho : o.key? with
    | none =>
      rw [List.filterMap_cons_none ho]
      exact ⟨hnodup, hold⟩
    | some k =>
      rw [List.filterMap_cons_some ho]
      obtain ⟨hbefore, hafter⟩ := h.key_fresh ho
      refine ⟨List.nodup_cons.mpr ⟨fun hk => hnew k hk hafter, hnodup⟩, ?_⟩
      intro k' hk'
      rcases List.mem_cons.mp hk' with rfl | hk'
      · exact hbefore
      · exact hold k' hk'

end FreshMap
end Bentobox
