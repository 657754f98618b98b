import Mathlib.Data.List.Dedup

/-!
# The order of last occurrences

In a list of uses, `List.dedup` keeps the last use of each element, so it is the order
in which a cache lists its elements when every use moves an element to the end. A use
at the end hides the earlier ones; what a list adds to such an order is decided by the
elements that nothing behind it uses again.
-/
namespace Bentobox

universe u

namespace Recency
variable {α : Type u} [DecidableEq α]

/-- The last `a` is before the last `b`. -/
def LastBefore (l : List α) (a b : α) : Prop :=
  a ∈ l ∧ l.reverse.idxOf b < l.reverse.idxOf a

instance (l : List α) (a b : α) : Decidable (LastBefore l a b) :=
  inferInstanceAs (Decidable (_ ∧ _))

/-! ## Uses behind others -/

theorem filter_dedup (p : α → Bool) (l : List α) : l.dedup.filter p = (l.filter p).dedup := by
  induction l with
  | nil => rfl
  | cons a l ih =>
    by_cases hp : p a = true
    · rw [List.filter_cons_of_pos hp]
      by_cases ha : a ∈ l
      · rw [List.dedup_cons_of_mem ha, List.dedup_cons_of_mem (List.mem_filter.mpr ⟨ha, hp⟩), ih]
      · rw [List.dedup_cons_of_notMem ha, List.filter_cons_of_pos hp, ih,
          List.dedup_cons_of_notMem fun hm => ha (List.mem_of_mem_filter hm)]
    · rw [List.filter_cons_of_neg hp, ← ih]
      by_cases ha : a ∈ l
      · rw [List.dedup_cons_of_mem ha]
      · rw [List.dedup_cons_of_notMem ha, List.filter_cons_of_neg hp]

/-- Only elements that are not used again keep their place. -/
theorem dedup_append (l m : List α) :
    (l ++ m).dedup = (l.filter (· ∉ m)).dedup ++ m.dedup := by
  induction l with
  | nil => rfl
  | cons a l ih =>
    by_cases hm : a ∈ m
    · rw [List.cons_append, List.dedup_cons_of_mem (List.mem_append_right l hm), ih,
        List.filter_cons_of_neg (by simpa using hm)]
    · rw [List.filter_cons_of_pos (by simpa using hm)]
      by_cases ha : a ∈ l
      · rw [List.cons_append, List.dedup_cons_of_mem (List.mem_append_left m ha), ih,
          List.dedup_cons_of_mem (List.mem_filter.mpr ⟨ha, by simpa using hm⟩)]
      · rw [List.cons_append, List.dedup_cons_of_notMem (by simp [ha, hm]), ih,
          List.dedup_cons_of_notMem fun h => ha (List.mem_of_mem_filter h), List.cons_append]

theorem dedup_dedup_append (l m : List α) : (l.dedup ++ m).dedup = (l ++ m).dedup := by
  rw [dedup_append, dedup_append, filter_dedup, List.dedup_idem]

/-- A use moves the element behind the others. -/
theorem dedup_append_singleton {l : List α} (hl : l.Nodup) (a : α) :
    (l ++ [a]).dedup = l.filter (· ≠ a) ++ [a] := by
  rw [dedup_append, (hl.filter _).dedup]
  simp

/-- Nothing moves when the element is the last one already. -/
theorem dedup_append_singleton_eq_self_iff {l : List α} (hl : l.Nodup) (a : α) :
    (l ++ [a]).dedup = l ↔ l.getLast? = some a := by
  rw [dedup_append_singleton hl, List.getLast?_eq_some_iff]
  constructor
  · exact fun h => ⟨_, h.symm⟩
  · rintro ⟨l, rfl⟩
    obtain ⟨-, -, hd⟩ := List.nodup_append.mp hl
    rw [List.filter_append, List.filter_eq_self.mpr fun b hb =>
      decide_eq_true (hd b hb a (List.mem_singleton_self a))]
    simp

/-- Lists with the same uses behind them. -/
theorem dedup_append_eq_iff {l l' m : List α} : (l ++ m).dedup = (l' ++ m).dedup ↔
    (l.filter (· ∉ m)).dedup = (l'.filter (· ∉ m)).dedup := by
  rw [dedup_append, dedup_append, List.append_left_inj]

/-- Lists of uses of the same elements behind others. -/
theorem append_dedup_eq_iff {l m m' : List α} (h : ∀ a, a ∈ m ↔ a ∈ m') :
    (l ++ m).dedup = (l ++ m').dedup ↔ m.dedup = m'.dedup := by
  have hfilter : l.filter (· ∉ m) = l.filter (· ∉ m') := by simp only [h]
  rw [dedup_append, dedup_append, hfilter, List.append_right_inj]

/-- **Where an order comes from.** An order that has the elements not used in `m` as they are after
`l` is the one of `l'` with `m` behind it, when `l` and `l'` agree on these elements and the order
is the one of `l` with `m` behind it. -/
theorem eq_dedup_append_iff {k l l' m : List α}
    (hk : k.filter (· ∉ m) = (l.filter (· ∉ m)).dedup) : k = (l' ++ m).dedup ↔
      (l.filter (· ∉ m)).dedup = (l'.filter (· ∉ m)).dedup ∧ k = (l ++ m).dedup := by
  constructor
  · rintro rfl
    have hfilter : (l.filter (· ∉ m)).dedup = (l'.filter (· ∉ m)).dedup := by
      have hm : m.filter (· ∉ m) = [] := List.filter_eq_nil_iff.mpr fun a ha => by simpa using ha
      rw [← hk, filter_dedup, List.filter_append, hm, List.append_nil]
    exact ⟨hfilter, dedup_append_eq_iff.mpr hfilter.symm⟩
  · rintro ⟨hfilter, rfl⟩
    exact dedup_append_eq_iff.mpr hfilter

/-! ## Pairs -/

theorem lastBefore_cons_iff {l : List α} {a b c : α} :
    LastBefore (c :: l) a b ↔ LastBefore l a b ∨ a = c ∧ a ∉ l ∧ b ∈ l := by
  have hlt : ∀ x, x ∈ l → l.reverse.idxOf x < l.reverse.length := fun x hx =>
    List.idxOf_lt_length_of_mem (List.mem_reverse.mpr hx)
  simp only [LastBefore, List.reverse_cons, List.idxOf_append, List.mem_reverse, List.mem_cons]
  by_cases ha : a ∈ l
  · by_cases hb : b ∈ l
    · simp [ha, hb]
    · have := hlt a ha
      simp only [ha, hb, if_true, if_false]
      grind
  · by_cases hb : b ∈ l
    · have := hlt b hb
      simp only [ha, hb, if_true, if_false]
      grind
    · simp only [ha, hb, if_false]
      grind

theorem LastBefore.asymm {l : List α} {a b : α} (h : LastBefore l a b) : ¬ LastBefore l b a :=
  fun h' => Nat.lt_asymm h.2 h'.2

/-- Different elements are used last one after the other. -/
theorem lastBefore_or_lastBefore {l : List α} {a b : α} (ha : a ∈ l) (hb : b ∈ l) (hne : a ≠ b) :
    LastBefore l a b ∨ LastBefore l b a := by
  rcases Nat.lt_trichotomy (l.reverse.idxOf b) (l.reverse.idxOf a) with h | h | h
  · exact .inl ⟨ha, h⟩
  · exact absurd ((List.idxOf_inj (List.mem_reverse.mpr hb)).mp h).symm hne
  · exact .inr ⟨hb, h⟩

theorem lastBefore_filter_iff {p : α → Bool} {l : List α} {a b : α} :
    LastBefore (l.filter p) a b ↔ p a = true ∧ p b = true ∧ LastBefore l a b := by
  induction l with
  | nil => simp [LastBefore]
  | cons c l ih =>
    by_cases hc : p c = true
    · rw [List.filter_cons_of_pos hc, lastBefore_cons_iff, lastBefore_cons_iff, ih]
      grind
    · rw [List.filter_cons_of_neg hc, lastBefore_cons_iff, ih]
      grind

theorem lastBefore_dedup_iff {l : List α} {a b : α} :
    LastBefore l.dedup a b ↔ LastBefore l a b := by
  induction l with
  | nil => exact Iff.rfl
  | cons c l ih =>
    by_cases hc : c ∈ l
    · rw [List.dedup_cons_of_mem hc, ih, lastBefore_cons_iff]
      grind
    · rw [List.dedup_cons_of_notMem hc, lastBefore_cons_iff, lastBefore_cons_iff, ih,
        List.mem_dedup, List.mem_dedup]

theorem pairwise_dedup (l : List α) : l.dedup.Pairwise (LastBefore l) := by
  induction l with
  | nil => exact .nil
  | cons c l ih =>
    have hl : l.dedup.Pairwise (LastBefore (c :: l)) :=
      ih.imp fun h => lastBefore_cons_iff.mpr (.inl h)
    by_cases hc : c ∈ l
    · rwa [List.dedup_cons_of_mem hc]
    · rw [List.dedup_cons_of_notMem hc]
      exact .cons (fun b hb => lastBefore_cons_iff.mpr (.inr ⟨rfl, hc, List.mem_dedup.mp hb⟩)) hl

/-- **The order of last uses** is the only one that has every used element once, each in front of
those that are used after its last use. -/
theorem eq_dedup_iff {k l : List α} :
    k = l.dedup ↔ k.Nodup ∧ (∀ a, a ∈ k ↔ a ∈ l) ∧ k.Pairwise (LastBefore l) := by
  constructor
  · rintro rfl
    exact ⟨l.nodup_dedup, fun a => List.mem_dedup, pairwise_dedup l⟩
  · rintro ⟨hk, hmem, hpairs⟩
    refine List.Perm.eq_of_pairwise (fun a b _ _ hab hba => absurd hba hab.asymm) hpairs
      (pairwise_dedup l) ?_
    exact (List.perm_ext_iff_of_nodup hk l.nodup_dedup).mpr (by simpa using hmem)

/-- Orders are the same when every two elements are in the same order. -/
theorem dedup_eq_dedup_iff {l m : List α} (h : ∀ a, a ∈ l ↔ a ∈ m) :
    l.dedup = m.dedup ↔ ∀ a b, LastBefore m a b → LastBefore l a b := by
  constructor
  · intro heq a b hab
    rwa [← lastBefore_dedup_iff, heq, lastBefore_dedup_iff]
  · intro hab
    refine eq_dedup_iff.mpr ⟨l.nodup_dedup, by simpa using h, ?_⟩
    refine (pairwise_dedup l).imp_of_mem fun {a b} ha hb hlab => ?_
    have ha' := (h a).mp (List.mem_dedup.mp ha)
    have hb' := (h b).mp (List.mem_dedup.mp hb)
    have hne : a ≠ b := by
      rintro rfl
      exact hlab.asymm hlab
    exact (lastBefore_or_lastBefore ha' hb' hne).resolve_right fun hba =>
      hlab.asymm (hab b a hba)

/-! ## What shows behind other uses -/

/-- One more use does not show, or the element was the last one to show. -/
theorem filter_append_singleton_dedup_iff {l m : List α} (hl : l.Nodup) (a : α) :
    (l.filter (· ∉ m)).dedup = ((l ++ [a]).filter (· ∉ m)).dedup ↔
      (a ∉ m → (l.filter (· ∉ m)).getLast? = some a) := by
  have hfilter : (l.filter (· ∉ m)).Nodup := hl.filter _
  by_cases ha : a ∈ m
  · rw [List.filter_append, List.filter_singleton, decide_eq_false (not_not.mpr ha), cond_false,
      List.append_nil]
    exact iff_of_true rfl fun h => absurd ha h
  · rw [List.filter_append, List.filter_singleton, decide_eq_true ha, cond_true, hfilter.dedup,
      eq_comm, dedup_append_singleton_eq_self_iff hfilter]
    exact ⟨fun h _ => h, fun h => h ha⟩

/-- Uses of the same elements show in the same order. -/
theorem filter_append_dedup_iff {l k k' m : List α} (h : ∀ a, a ∈ k ↔ a ∈ k') :
    ((l ++ k).filter (· ∉ m)).dedup = ((l ++ k').filter (· ∉ m)).dedup ↔
      ∀ a b, a ∉ m → b ∉ m → LastBefore k' a b → LastBefore k a b := by
  have hmem : ∀ a, a ∈ k.filter (· ∉ m) ↔ a ∈ k'.filter (· ∉ m) := by simp [h]
  rw [List.filter_append, List.filter_append, append_dedup_eq_iff hmem, dedup_eq_dedup_iff hmem]
  simp only [lastBefore_filter_iff, decide_eq_true_eq]
  grind

end Recency
end Bentobox
