import Mathlib.Data.List.Induction
import Mathlib.Data.List.Nodup
import Mathlib.Data.List.Perm.Basic

/-!
# Insertion-ordered dictionaries

A finite map that iterates in the order in which its keys were first inserted.
Assigning to a present key keeps its place, assigning to a new key appends, and
`moveToEnd` moves a key behind all others. The keys of a dictionary are distinct
by construction, so no operation needs a side condition on them.
-/
namespace Bentobox

universe u v w

/-- Distinct keys with their values, oldest key first. -/
structure OrderedDict (κ : Type u) (α : Type v) where
  entries : List (κ × α)
  nodupKeys : (entries.map Prod.fst).Nodup

namespace OrderedDict
variable {κ : Type u} {α : Type v}

@[ext] theorem ext {d e : OrderedDict κ α} (h : d.entries = e.entries) : d = e := by
  cases d; cases e
  congr

instance [DecidableEq κ] [DecidableEq α] : DecidableEq (OrderedDict κ α) := fun d e =>
  decidable_of_iff (d.entries = e.entries) ⟨ext, fun h => h ▸ rfl⟩

def empty : OrderedDict κ α := ⟨[], List.nodup_nil⟩

instance : EmptyCollection (OrderedDict κ α) := ⟨empty⟩
instance : Inhabited (OrderedDict κ α) := ⟨empty⟩

def keys (d : OrderedDict κ α) : List κ := d.entries.map Prod.fst
def values (d : OrderedDict κ α) : List α := d.entries.map Prod.snd
def size (d : OrderedDict κ α) : Nat := d.entries.length

@[simp] theorem entries_empty : (∅ : OrderedDict κ α).entries = [] := rfl
@[simp] theorem keys_empty : (∅ : OrderedDict κ α).keys = [] := rfl
@[simp] theorem size_empty : (∅ : OrderedDict κ α).size = 0 := rfl

theorem nodup_keys (d : OrderedDict κ α) : d.keys.Nodup := d.nodupKeys

theorem length_keys (d : OrderedDict κ α) : d.keys.length = d.size := by
  simp [keys, size]

variable [DecidableEq κ]

def get? (d : OrderedDict κ α) (k : κ) : Option α := d.entries.lookup k
def contains (d : OrderedDict κ α) (k : κ) : Bool := (d.get? k).isSome

@[simp] theorem get?_empty (k : κ) : (∅ : OrderedDict κ α).get? k = none := rfl

/-! ## Lookup and membership of keys -/

private theorem lookup_eq_none_iff {l : List (κ × α)} {k : κ} :
    l.lookup k = none ↔ k ∉ l.map Prod.fst := by
  induction l with
  | nil => simp
  | cons p l ih =>
    obtain ⟨a, x⟩ := p
    by_cases h : k = a
    · subst h; simp
    · have hb : (k == a) = false := by simp [h]
      simp only [List.lookup_cons, hb, ih]
      simp [h]

private theorem lookup_eq_some_iff {l : List (κ × α)} (hl : (l.map Prod.fst).Nodup)
    {k : κ} {x : α} : l.lookup k = some x ↔ (k, x) ∈ l := by
  induction l with
  | nil => simp
  | cons p l ih =>
    obtain ⟨a, y⟩ := p
    simp only [List.map_cons, List.nodup_cons] at hl
    by_cases h : k = a
    · subst h
      have hx : (k, x) ∉ l := fun hm => hl.1 (List.mem_map_of_mem (f := Prod.fst) hm)
      simp [hx, eq_comm]
    · have hb : (k == a) = false := by simp [h]
      simp only [List.lookup_cons, hb, ih hl.2]
      simp [h]

theorem get?_eq_none_iff {d : OrderedDict κ α} {k : κ} : d.get? k = none ↔ k ∉ d.keys :=
  lookup_eq_none_iff

theorem get?_eq_some_iff {d : OrderedDict κ α} {k : κ} {x : α} :
    d.get? k = some x ↔ (k, x) ∈ d.entries :=
  lookup_eq_some_iff d.nodupKeys

theorem mem_keys_of_get? {d : OrderedDict κ α} {k : κ} {x : α} (h : d.get? k = some x) :
    k ∈ d.keys :=
  List.mem_map_of_mem (f := Prod.fst) (get?_eq_some_iff.mp h)

theorem contains_iff {d : OrderedDict κ α} {k : κ} : d.contains k = true ↔ k ∈ d.keys := by
  rw [contains, ← Option.ne_none_iff_isSome, Ne, get?_eq_none_iff, not_not]

/-! ## Assignment -/

private def setEntry (l : List (κ × α)) (k : κ) (x : α) : List (κ × α) :=
  l.map fun p => if p.1 = k then (k, x) else p

private theorem map_fst_setEntry (l : List (κ × α)) (k : κ) (x : α) :
    (setEntry l k x).map Prod.fst = l.map Prod.fst := by
  simp only [setEntry, List.map_map]
  apply List.map_congr_left
  rintro ⟨a, y⟩ _
  by_cases h : a = k <;> simp [h]

private theorem lookup_setEntry_ne (l : List (κ × α)) {k k' : κ} (hk : k' ≠ k) (x : α) :
    (setEntry l k x).lookup k' = l.lookup k' := by
  induction l with
  | nil => rfl
  | cons p l ih =>
    obtain ⟨a, y⟩ := p
    have hs : setEntry ((a, y) :: l) k x = (if a = k then (k, x) else (a, y)) :: setEntry l k x :=
      rfl
    rw [hs]
    by_cases ha : a = k
    · subst ha
      have hb : (k' == a) = false := by simp [hk]
      simp only [if_true, List.lookup_cons, hb, ih]
    · simp only [ha, if_false, List.lookup_cons, ih]

private theorem lookup_setEntry_self {l : List (κ × α)} {k : κ} (hk : k ∈ l.map Prod.fst)
    (x : α) : (setEntry l k x).lookup k = some x := by
  induction l with
  | nil => simp at hk
  | cons p l ih =>
    obtain ⟨a, y⟩ := p
    have hs : setEntry ((a, y) :: l) k x = (if a = k then (k, x) else (a, y)) :: setEntry l k x :=
      rfl
    rw [hs]
    by_cases ha : a = k
    · simp [ha]
    · have hm : k ∈ l.map Prod.fst := by simpa [Ne.symm ha] using hk
      have hb : (k == a) = false := by simp [Ne.symm ha]
      simp only [ha, if_false, List.lookup_cons, hb, ih hm]

/-- `d[k] = x`: in place when `k` is present, at the end otherwise. -/
def insert (d : OrderedDict κ α) (k : κ) (x : α) : OrderedDict κ α :=
  if h : k ∈ d.keys then
    ⟨setEntry d.entries k x, by rw [map_fst_setEntry]; exact d.nodupKeys⟩
  else
    ⟨d.entries ++ [(k, x)], by
      have hd : k ∉ d.entries.map Prod.fst := h
      rw [List.map_append, List.nodup_append]
      refine ⟨d.nodupKeys, by simp, ?_⟩
      rintro a ha b hb rfl
      simp only [List.map_cons, List.map_nil, List.mem_singleton] at hb
      exact hd (hb ▸ ha)⟩

theorem get?_insert (d : OrderedDict κ α) (k : κ) (x : α) (k' : κ) :
    (d.insert k x).get? k' = if k' = k then some x else d.get? k' := by
  rw [insert]
  split
  next h =>
    by_cases hk : k' = k
    · subst hk; simpa [get?] using lookup_setEntry_self h x
    · simpa [get?, hk] using lookup_setEntry_ne d.entries hk x
  next h =>
    simp only [get?, List.lookup_append]
    by_cases hk : k' = k
    · subst hk
      have hn : d.entries.lookup k' = none := lookup_eq_none_iff.mpr h
      simp [hn]
    · have hb : (k' == k) = false := by simp [hk]
      simp [hk, List.lookup_cons, hb]

@[simp] theorem get?_insert_self (d : OrderedDict κ α) (k : κ) (x : α) :
    (d.insert k x).get? k = some x := by simp [get?_insert]

theorem get?_insert_ne (d : OrderedDict κ α) {k k' : κ} (h : k' ≠ k) (x : α) :
    (d.insert k x).get? k' = d.get? k' := by simp [get?_insert, h]

theorem keys_insert (d : OrderedDict κ α) (k : κ) (x : α) :
    (d.insert k x).keys = if k ∈ d.keys then d.keys else d.keys ++ [k] := by
  rw [insert]
  split
  next h => simp only [keys, map_fst_setEntry]
  next h => simp [keys]

/-- Assigning to a present key leaves every other entry in its place. -/
theorem entries_insert_of_mem {d : OrderedDict κ α} {k : κ} (h : k ∈ d.keys) (x : α) :
    (d.insert k x).entries = d.entries.map fun p => if p.1 = k then (k, x) else p := by
  rw [insert]
  rw [dif_pos h]
  rfl

/-- Assigning to a new key appends. -/
theorem entries_insert_of_notMem {d : OrderedDict κ α} {k : κ} (h : k ∉ d.keys) (x : α) :
    (d.insert k x).entries = d.entries ++ [(k, x)] := by
  rw [insert]
  rw [dif_neg h]

/-- Assigning the value that a key has changes nothing. -/
theorem insert_eq_self {d : OrderedDict κ α} {k : κ} {x : α} (h : d.get? k = some x) :
    d.insert k x = d := by
  apply ext
  rw [entries_insert_of_mem (mem_keys_of_get? h)]
  conv_rhs => rw [← List.map_id d.entries]
  refine List.map_congr_left fun p hp => ?_
  by_cases hk : p.1 = k
  · have hx : d.get? k = some p.2 := hk ▸ get?_eq_some_iff.mpr hp
    rw [h] at hx
    cases hx
    rw [if_pos hk, id, ← hk]
  · rw [if_neg hk, id]

/-- Of two assignments to one key the later one counts. -/
theorem insert_insert (d : OrderedDict κ α) (k : κ) (x y : α) :
    (d.insert k x).insert k y = d.insert k y := by
  have hk : k ∈ (d.insert k x).keys := mem_keys_of_get? (get?_insert_self d k x)
  apply ext
  rw [entries_insert_of_mem hk]
  by_cases hd : k ∈ d.keys
  · rw [entries_insert_of_mem hd, entries_insert_of_mem hd, List.map_map]
    refine List.map_congr_left fun p _ => ?_
    by_cases hp : p.1 = k <;> simp [hp]
  · rw [entries_insert_of_notMem hd, entries_insert_of_notMem hd, List.map_append]
    have hentries : d.entries.map (fun p => if p.1 = k then (k, y) else p) = d.entries := by
      refine (List.map_congr_left fun p hp => ?_).trans (List.map_id d.entries)
      have hne : p.1 ≠ k := fun heq => hd (heq ▸ List.mem_map_of_mem hp)
      rw [if_neg hne, id]
    rw [hentries]
    simp

theorem mem_keys_insert {d : OrderedDict κ α} {k k' : κ} {x : α} :
    k' ∈ (d.insert k x).keys ↔ k' = k ∨ k' ∈ d.keys := by
  rw [keys_insert]
  split
  next h => constructor <;> [exact Or.inr; (rintro (rfl | h') <;> assumption)]
  next h => simp [or_comm]

/-! ## Update -/

/-- `update`: insert all entries of another dictionary, in order. -/
def update (d e : OrderedDict κ α) : OrderedDict κ α :=
  e.entries.foldl (fun d p => d.insert p.1 p.2) d

private theorem mem_keys_foldl_insert {l : List (κ × α)} {d : OrderedDict κ α} {k : κ} :
    k ∈ (l.foldl (fun d p => d.insert p.1 p.2) d).keys ↔ k ∈ d.keys ∨ k ∈ l.map Prod.fst := by
  induction l generalizing d with
  | nil => simp
  | cons p l ih =>
    rw [List.foldl_cons, ih, mem_keys_insert, List.map_cons, List.mem_cons]
    tauto

@[simp] theorem mem_keys_update {d e : OrderedDict κ α} {k : κ} :
    k ∈ (d.update e).keys ↔ k ∈ d.keys ∨ k ∈ e.keys := mem_keys_foldl_insert

private theorem get?_foldl_insert {l : List (κ × α)} (h : (l.map Prod.fst).Nodup)
    (d : OrderedDict κ α) (k : κ) :
    (l.foldl (fun d p => d.insert p.1 p.2) d).get? k = (l.lookup k).or (d.get? k) := by
  induction l generalizing d with
  | nil => rfl
  | cons p l ih =>
    obtain ⟨hp, hl⟩ := List.nodup_cons.mp h
    rw [List.foldl_cons, ih hl, get?_insert, List.lookup_cons]
    by_cases hk : k = p.1
    · subst hk
      have hnone : l.lookup p.1 = none := List.lookup_eq_none_iff.mpr fun q hq => by
        rw [bne_iff_ne]
        intro heq
        exact hp (heq ▸ List.mem_map_of_mem hq)
      simp [hnone]
    · have hb : (k == p.1) = false := by simp [hk]
      rw [if_neg hk, hb]

/-- The entries of the other dictionary come first. -/
theorem get?_update (d e : OrderedDict κ α) (k : κ) :
    (d.update e).get? k = (e.get? k).or (d.get? k) :=
  get?_foldl_insert e.nodupKeys d k

/-! ## Indexing a list -/

section Index
variable {β : Type w} (key : β → κ) (value : β → α)

/-- `{key(x): value(x) for x in xs}`: of the elements with one key the last one stays. -/
def index (xs : List β) : OrderedDict κ α :=
  xs.foldl (fun d x => d.insert (key x) (value x)) ∅

theorem index_append_singleton (xs : List β) (x : β) :
    index key value (xs ++ [x]) = (index key value xs).insert (key x) (value x) := by
  rw [index, List.foldl_append]
  rfl

variable {key value} {xs : List β}

theorem mem_keys_index {k : κ} : k ∈ (index key value xs).keys ↔ k ∈ xs.map key := by
  induction xs using List.reverseRecOn with
  | nil => simp [index]
  | append_singleton xs x ih =>
    rw [index_append_singleton, mem_keys_insert, ih, List.map_append, List.mem_append]
    simp [or_comm]

/-- What is found under a key is the value of an element with this key. -/
theorem get?_index {k : κ} {a : α} (h : (index key value xs).get? k = some a) :
    ∃ x ∈ xs, key x = k ∧ value x = a := by
  induction xs using List.reverseRecOn with
  | nil => cases h
  | append_singleton xs x ih =>
    rw [index_append_singleton, get?_insert] at h
    split at h
    next hk =>
      cases h
      exact ⟨x, by simp, hk.symm, rfl⟩
    next =>
      obtain ⟨y, hmem, hy⟩ := ih h
      exact ⟨y, List.mem_append_left _ hmem, hy⟩

/-- What is found under a key is the value of the last element with this key. -/
theorem get?_index_eq (k : κ) : (index key value xs).get? k =
    (xs.reverse.find? fun x => decide (key x = k)).map value := by
  induction xs using List.reverseRecOn with
  | nil => rfl
  | append_singleton xs x ih =>
    rw [index_append_singleton, get?_insert, List.reverse_append, List.reverse_singleton,
      List.singleton_append, List.find?_cons]
    by_cases hk : key x = k
    · simp [hk]
    · rw [if_neg (Ne.symm hk), ih]
      simp [hk]

/-- Elements with distinct keys all stay, in their order. -/
theorem entries_index (h : (xs.map key).Nodup) :
    (index key value xs).entries = xs.map fun x => (key x, value x) := by
  induction xs using List.reverseRecOn with
  | nil => rfl
  | append_singleton xs x ih =>
    rw [List.map_append, List.nodup_append] at h
    obtain ⟨hxs, -, hne⟩ := h
    have hx : key x ∉ (index key value xs).keys := fun hmem =>
      hne _ (mem_keys_index.mp hmem) _ (by simp) rfl
    rw [index_append_singleton, entries_insert_of_notMem hx, ih hxs, List.map_append]
    rfl

/-- **No element is lost** exactly when the keys are distinct. -/
theorem size_index_iff : (index key value xs).size = xs.length ↔ (xs.map key).Nodup := by
  constructor
  · intro h
    have hsub : (index key value xs).keys ⊆ xs.map key := fun k hk => mem_keys_index.mp hk
    have hperm := (List.subperm_of_subset (index key value xs).nodup_keys hsub).perm_of_length_le
      (by simp [length_keys, h])
    exact hperm.nodup (index key value xs).nodup_keys
  · intro h
    rw [size, entries_index h, List.length_map]

end Index

/-! ## Removal -/

def erase (d : OrderedDict κ α) (k : κ) : OrderedDict κ α :=
  ⟨d.entries.filter fun p => p.1 ≠ k, by
    exact d.nodupKeys.sublist (List.filter_sublist.map Prod.fst)⟩

private theorem lookup_filter_ne (l : List (κ × α)) (k k' : κ) :
    (l.filter fun p => p.1 ≠ k).lookup k' = if k' = k then none else l.lookup k' := by
  induction l with
  | nil => simp
  | cons p l ih =>
    obtain ⟨a, y⟩ := p
    by_cases ha : a = k
    · subst ha
      rw [List.filter_cons_of_neg (by simp), ih]
      by_cases hk : k' = a
      · simp [hk]
      · have hb : (k' == a) = false := by simp [hk]
        simp [hk, List.lookup_cons, hb]
    · rw [List.filter_cons_of_pos (by simp [ha])]
      by_cases hk : k' = a
      · subst hk; simp [ha]
      · have hb : (k' == a) = false := by simp [hk]
        simp only [List.lookup_cons, hb, ih]

theorem get?_erase (d : OrderedDict κ α) (k k' : κ) :
    (d.erase k).get? k' = if k' = k then none else d.get? k' :=
  lookup_filter_ne d.entries k k'

@[simp] theorem get?_erase_self (d : OrderedDict κ α) (k : κ) : (d.erase k).get? k = none := by
  simp [get?_erase]

theorem get?_erase_ne (d : OrderedDict κ α) {k k' : κ} (h : k' ≠ k) :
    (d.erase k).get? k' = d.get? k' := by simp [get?_erase, h]

theorem mem_keys_erase {d : OrderedDict κ α} {k k' : κ} :
    k' ∈ (d.erase k).keys ↔ k' ≠ k ∧ k' ∈ d.keys := by
  simp only [erase, keys, List.mem_map, List.mem_filter, decide_eq_true_eq]
  constructor
  · rintro ⟨p, ⟨hp, hk⟩, rfl⟩; exact ⟨hk, p, hp, rfl⟩
  · rintro ⟨hk, p, hp, rfl⟩; exact ⟨p, ⟨hp, hk⟩, rfl⟩

/-! ## Restriction -/

/-- The entries whose keys have a property, in their order. -/
def restrict (d : OrderedDict κ α) (p : κ → Bool) : OrderedDict κ α :=
  ⟨d.entries.filter fun e => p e.1, d.nodupKeys.sublist (List.filter_sublist.map Prod.fst)⟩

theorem get?_restrict (d : OrderedDict κ α) {p : κ → Bool} {k : κ} (hk : p k = true) :
    (d.restrict p).get? k = d.get? k := by
  refine Option.ext fun x => ?_
  rw [get?_eq_some_iff, get?_eq_some_iff, restrict, List.mem_filter]
  exact and_iff_left hk

/-! ## Reordering -/

/-- `d.move_to_end(k)`: only the iteration order changes. -/
def moveToEnd (d : OrderedDict κ α) (k : κ) : OrderedDict κ α :=
  match d.get? k with
  | some x => (d.erase k).insert k x
  | none => d

@[simp] theorem get?_moveToEnd (d : OrderedDict κ α) (k k' : κ) :
    (d.moveToEnd k).get? k' = d.get? k' := by
  rw [moveToEnd]
  cases h : d.get? k with
  | none => rfl
  | some x =>
    rw [get?_insert, get?_erase]
    by_cases hk : k' = k
    · subst hk; simp [h]
    · simp [hk]

/-- Assigning to a key and moving it puts it behind all other entries. -/
theorem entries_moveToEnd_insert (d : OrderedDict κ α) (k : κ) (x : α) :
    ((d.insert k x).moveToEnd k).entries = (d.erase k).entries ++ [(k, x)] := by
  have herase : ((d.insert k x).erase k).entries = (d.erase k).entries := by
    by_cases hk : k ∈ d.keys
    · simp only [erase, entries_insert_of_mem hk, List.filter_map]
      conv_rhs => rw [← List.map_id (d.entries.filter fun p => p.1 ≠ k)]
      have hfilter : ((fun p : κ × α => decide (p.1 ≠ k)) ∘
          fun p => if p.1 = k then (k, x) else p) = fun p => decide (p.1 ≠ k) := by
        funext p
        by_cases hp : p.1 = k <;> simp [hp]
      rw [hfilter]
      refine List.map_congr_left fun p hp => if_neg ?_
      simpa using (List.mem_filter.mp hp).2
    · simp [erase, entries_insert_of_notMem hk]
  have hnot : k ∉ ((d.insert k x).erase k).keys := fun h => (mem_keys_erase.mp h).1 rfl
  rw [moveToEnd, get?_insert_self]
  simp only [entries_insert_of_notMem hnot, herase]

/-- The other entries do not move. -/
theorem restrict_moveToEnd_insert (d : OrderedDict κ α) {p : κ → Bool} {k : κ} (hk : p k = false)
    (x : α) : ((d.insert k x).moveToEnd k).restrict p = d.restrict p := by
  apply ext
  simp only [restrict, entries_moveToEnd_insert, erase, List.filter_append, List.filter_filter]
  rw [List.filter_singleton, hk, cond_false, List.append_nil]
  refine List.filter_congr fun e _ => ?_
  by_cases he : e.1 = k
  · rw [he, hk, Bool.false_and]
  · rw [decide_eq_true he, Bool.and_true]

/-! ## Mapping the values -/

section Map
variable {β : Type v} (f : α → β)

omit [DecidableEq κ] in
/-- The same keys with the values under `f`. -/
def map (d : OrderedDict κ α) : OrderedDict κ β :=
  ⟨d.entries.map fun p => (p.1, f p.2), by
    rw [List.map_map]
    exact d.nodupKeys⟩

omit [DecidableEq κ] in
@[simp] theorem keys_map (d : OrderedDict κ α) : (d.map f).keys = d.keys := by
  simp only [keys, map, List.map_map]
  rfl

@[simp] theorem get?_map (d : OrderedDict κ α) (k : κ) : (d.map f).get? k = (d.get? k).map f := by
  obtain ⟨l, hl⟩ := d
  simp only [get?, map]
  clear hl
  induction l with
  | nil => rfl
  | cons p l ih =>
    rw [List.map_cons, List.lookup_cons, List.lookup_cons, ih]
    split <;> rfl

theorem map_insert (d : OrderedDict κ α) (k : κ) (x : α) :
    (d.insert k x).map f = (d.map f).insert k (f x) := by
  apply ext
  by_cases h : k ∈ d.keys
  · have h' : k ∈ (d.map f).keys := by rwa [keys_map]
    rw [entries_insert_of_mem h']
    simp only [map, entries_insert_of_mem h, List.map_map]
    refine List.map_congr_left fun p _ => ?_
    by_cases hk : p.1 = k <;> simp [hk]
  · have h' : k ∉ (d.map f).keys := by rwa [keys_map]
    rw [entries_insert_of_notMem h']
    simp [map, entries_insert_of_notMem h]

theorem map_erase (d : OrderedDict κ α) (k : κ) : (d.erase k).map f = (d.map f).erase k := by
  apply ext
  simp only [map, erase, List.filter_map]
  rfl

end Map

end OrderedDict
end Bentobox
