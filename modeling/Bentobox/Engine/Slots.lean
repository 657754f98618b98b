import Bentobox.Engine.Lookup
import Bentobox.Lib.FreshMap

/-!
# The vector of components is a map with fresh identifiers

A `CompVec` reuses the slots of removed components, and never an identifier. Its
slots stay apart (`CompVec.Tidy`): those of the live identifiers are distinct, those in
the queue are distinct, and none is both. Every call then does what the map of the live
identifiers does. Identifiers are counted here without the wrap behind `2 ^ 64`.
-/
namespace Bentobox.CompVec

open FreshMap (Call Answer)

variable {C : Type} {α : Type}

/-! ## The invariant -/

/-- The component stored for an identifier, active or not. -/
def stored (v : CompVec C) (id : ℕ) : Option C := v.idToIndex.get? id >>= fun k => v.vec[k]?

/-- What the vector stands for. -/
def toMap (v : CompVec C) : FreshMap ℕ C := ⟨Set.Icc 1 v.lastId, v.stored⟩

/-- Live and queued slots exist and do not overlap, and live identifiers were issued. -/
structure Tidy (v : CompVec C) : Prop where
  slots : v.SlotsDistinct
  inBounds : ∀ id k, v.idToIndex.get? id = some k → k < v.vec.length
  issued : ∀ id k, v.idToIndex.get? id = some k → id ∈ Set.Icc 1 v.lastId
  freeInBounds : ∀ k ∈ v.inactiveCompIdx, k < v.vec.length
  freeNodup : v.inactiveCompIdx.Nodup
  freeUnused : ∀ k ∈ v.inactiveCompIdx, ∀ id, v.idToIndex.get? id ≠ some k

theorem tidy_new : (new : CompVec C).Tidy := by
  constructor <;> simp [new, SlotsDistinct]

theorem toMap_new : (new : CompVec C).toMap = .empty := by
  ext id : 2
  · simp [toMap, new, FreshMap.empty]
  · rfl

theorem stored_of_slot {v : CompVec C} {id k : ℕ} (h : v.idToIndex.get? id = some k) :
    v.stored id = v.vec[k]? := by
  rw [stored, h]
  rfl

theorem stored_eq_some_iff {v : CompVec C} {id : ℕ} {c : C} :
    v.stored id = some c ↔ ∃ k, v.idToIndex.get? id = some k ∧ v.vec[k]? = some c := by
  simp [stored, Option.bind_eq_some_iff]

/-- A live identifier has a component in its slot. -/
theorem Tidy.stored_eq_none_iff {v : CompVec C} (hv : v.Tidy) {id : ℕ} :
    v.stored id = none ↔ v.idToIndex.get? id = none := by
  cases h : v.idToIndex.get? id with
  | none => simp [stored, h]
  | some k => simp [stored_of_slot h, hv.inBounds id k h]

/-! ## Writing into a slot -/

/-- Overwriting the slot of a live identifier stores under that identifier only. -/
theorem Tidy.set {v : CompVec C} (hv : v.Tidy) {id k : ℕ} (h : v.idToIndex.get? id = some k)
    (c : C) : ({ v with vec := v.vec.set k c } : CompVec C).Tidy ∧
      ({ v with vec := v.vec.set k c } : CompVec C).toMap = v.toMap.set id (some c) := by
  constructor
  · exact ⟨hv.slots, fun i j hj => by simpa using hv.inBounds i j hj, hv.issued,
      fun j hj => by simpa using hv.freeInBounds j hj, hv.freeNodup, hv.freeUnused⟩
  · refine FreshMap.ext rfl (funext fun i => ?_)
    by_cases hi : i = id
    · subst hi
      have hlt := hv.inBounds i k h
      simp [toMap, FreshMap.set, stored, h, hlt]
    · have hother : stored { v with vec := v.vec.set k c } i = v.stored i := by
        cases hj : v.idToIndex.get? i with
        | none => simp [stored, hj]
        | some j =>
          have hne : k ≠ j := by
            intro heq
            subst heq
            exact hi (hv.slots i id k hj h)
          simp [stored, hj, hne]
      simp [toMap, FreshMap.set, hi, hother]

/-- A new component gets a slot of its own: the one at the head of the queue, or a new one at
the end. What is stored for the live identifiers stays. -/
theorem Tidy.addToVec {v : CompVec C} (hv : v.Tidy) (val : C) :
    ∃ k v', CompVec.addToVec val v = (.ok k, v') ∧ v'.Tidy ∧ v'.idToIndex = v.idToIndex ∧
      v'.lastId = v.lastId ∧ v'.vec[k]? = some val ∧ k ∉ v'.inactiveCompIdx ∧
      (∀ id, v.idToIndex.get? id ≠ some k) ∧ ∀ id, v'.stored id = v.stored id := by
  cases hq : v.inactiveCompIdx with
  | nil =>
    have hnew : ∀ id, v.idToIndex.get? id ≠ some v.vec.length := by
      intro id h
      exact absurd (hv.inBounds id _ h) (lt_irrefl _)
    have hkept : ∀ k, k < v.vec.length → (v.vec ++ [val])[k]? = v.vec[k]? := by
      intro k hk
      exact List.getElem?_append_left hk
    refine ⟨v.vec.length, { v with vec := v.vec ++ [val] }, by simp [CompVec.addToVec, hq],
      ⟨hv.slots, ?_, hv.issued, by simp [hq], hv.freeNodup, hv.freeUnused⟩, rfl, rfl, by simp,
      by simp [hq], hnew, ?_⟩
    · intro id k h
      have := hv.inBounds id k h
      rw [List.length_append]
      omega
    · intro id
      cases h : v.idToIndex.get? id with
      | none => simp [stored, h]
      | some k => simp only [stored, h, Option.bind_eq_bind, Option.bind_some,
          hkept k (hv.inBounds id k h)]
  | cons k rest =>
    have hk : k ∈ v.inactiveCompIdx := by rw [hq]; exact List.mem_cons_self
    have hlt := hv.freeInBounds k hk
    have hnodup : (k :: rest).Nodup := hq ▸ hv.freeNodup
    have hrest : ∀ j ∈ rest, j ∈ v.inactiveCompIdx := by
      intro j hj
      rw [hq]
      exact List.mem_cons_of_mem k hj
    refine ⟨k, { v with vec := v.vec.set k val, inactiveCompIdx := rest },
      by simp [CompVec.addToVec, hq, hlt],
      ⟨hv.slots, fun i j hj => by simpa using hv.inBounds i j hj, hv.issued,
        fun j hj => by simpa using hv.freeInBounds j (hrest j hj), (List.nodup_cons.mp hnodup).2,
        fun j hj => hv.freeUnused j (hrest j hj)⟩,
      rfl, rfl, by simp [hlt], (List.nodup_cons.mp hnodup).1, hv.freeUnused k hk, ?_⟩
    intro id
    cases h : v.idToIndex.get? id with
    | none => simp [stored, h]
    | some j =>
      have hne : k ≠ j := by
        intro heq
        subst heq
        exact hv.freeUnused k hk id h
      simp [stored, h, hne]

/-! ## Adding and removing -/

theorem Tidy.add {v : CompVec C} (hv : v.Tidy) (val : C) :
    ∃ v', CompVec.add val v = (.ok (v.lastId + 1), v') ∧ v'.Tidy ∧ v'.toMap =
      { v.toMap.set (v.lastId + 1) (some val) with
        issued := insert (v.lastId + 1) v.toMap.issued } := by
  obtain ⟨k, v₁, hadd, hv₁, hids, hlast, hval, hfree, hunused, hkept⟩ := hv.addToVec val
  have hfresh : v₁.idToIndex.get? (v₁.lastId + 1) = none := by
    cases h : v₁.idToIndex.get? (v₁.lastId + 1) with
    | none => rfl
    | some j =>
      have := (hv₁.issued _ j h).2
      omega
  have hcontains : v₁.idToIndex.contains (v₁.lastId + 1) = false := by
    simp [OrderedDict.contains, hfresh]
  have hnew : ∀ i j, (v₁.idToIndex.insert (v₁.lastId + 1) k).get? i = some j →
      i = v₁.lastId + 1 ∧ j = k ∨ v₁.idToIndex.get? i = some j ∧ j ≠ k := by
    intro i j h
    rw [OrderedDict.get?_insert] at h
    split_ifs at h with hi
    · exact .inl ⟨hi, (Option.some.inj h).symm⟩
    · refine .inr ⟨h, ?_⟩
      intro heq
      exact hunused i (by rw [← hids, h, heq])
  have hlt : k < v₁.vec.length := (List.getElem?_eq_some_iff.mp hval).1
  refine ⟨{ v₁ with
    idToIndex := v₁.idToIndex.insert (v₁.lastId + 1) k, lastId := v₁.lastId + 1 }, ?_,
    ⟨?_, ?_, ?_, hv₁.freeInBounds, hv₁.freeNodup, ?_⟩, ?_⟩
  · rw [CompVec.add, Fallible.run_bind_of_ok hadd, insertNextId, hcontains, hlast]
    rfl
  · intro i j l hi hj
    obtain ⟨rfl, rfl⟩ | ⟨hi, hne⟩ := hnew i l hi
    · obtain ⟨rfl, -⟩ | ⟨-, hne⟩ := hnew j l hj
      · rfl
      · exact absurd rfl hne
    · obtain ⟨-, rfl⟩ | ⟨hj, -⟩ := hnew j l hj
      · exact absurd rfl hne
      · exact hv₁.slots i j l hi hj
  · intro i j h
    obtain ⟨-, rfl⟩ | ⟨h, -⟩ := hnew i j h
    · exact hlt
    · exact hv₁.inBounds i j h
  · intro i j h
    obtain ⟨rfl, -⟩ | ⟨h, -⟩ := hnew i j h
    · exact ⟨by omega, le_rfl⟩
    · obtain ⟨hpos, hle⟩ := hv₁.issued i j h
      exact ⟨hpos, Nat.le_succ_of_le hle⟩
  · intro j hj i h
    obtain ⟨-, rfl⟩ | ⟨h, -⟩ := hnew i j h
    · exact hfree hj
    · exact hv₁.freeUnused j hj i h
  · refine FreshMap.ext ?_ (funext fun i => ?_)
    · ext i
      simp only [toMap, Set.mem_Icc, Set.mem_insert_iff, hlast]
      omega
    · by_cases hi : i = v.lastId + 1
      · subst hi
        simp [toMap, FreshMap.set, stored, hlast, hval]
      · have hkept' := hkept i
        simp only [stored] at hkept'
        simp [toMap, FreshMap.set, stored, hlast, hi, OrderedDict.get?_insert_ne, hkept']

/-- The number of live identifiers. -/
theorem Tidy.size_eq {v : CompVec C} (hv : v.Tidy) : v.size = v.toMap.live.ncard := by
  have hlive : v.toMap.live = ↑v.idToIndex.keys.toFinset := by
    ext id
    rw [List.coe_toFinset, Set.mem_ofPred_eq, ← OrderedDict.contains_iff, OrderedDict.contains]
    cases h : v.idToIndex.get? id with
    | none => simp [FreshMap.live, toMap, hv.stored_eq_none_iff.mpr h]
    | some k => simp [FreshMap.live, toMap, stored, h, hv.inBounds id k h]
  rw [hlive, Set.ncard_coe_finset, List.toFinset_card_of_nodup v.idToIndex.nodup_keys,
    OrderedDict.length_keys, size]

variable [Component C]

theorem Tidy.remove {v : CompVec C} (hv : v.Tidy) {id : ℕ} {c : C} (h : v.stored id = some c) :
    ∃ v', CompVec.remove id v = (.ok (), v') ∧ v'.Tidy ∧ v'.toMap = v.toMap.set id none := by
  obtain ⟨k, hk, hvec⟩ := stored_eq_some_iff.mp h
  have hkept : ∀ i j, (v.idToIndex.erase id).get? i = some j →
      i ≠ id ∧ v.idToIndex.get? i = some j ∧ j ≠ k := by
    intro i j hi
    rw [OrderedDict.get?_erase] at hi
    split_ifs at hi with hid
    refine ⟨hid, hi, ?_⟩
    intro heq
    subst heq
    exact hid (hv.slots i id j hi hk)
  refine ⟨{ v with
    vec := v.vec.set k (Component.deactivate c), inactiveCompIdx := v.inactiveCompIdx ++ [k]
    idToIndex := v.idToIndex.erase id }, by simp only [CompVec.remove, hk, hvec],
    ⟨?_, ?_, ?_, ?_, ?_, ?_⟩, ?_⟩
  · intro i j l hi hj
    exact hv.slots i j l (hkept i l hi).2.1 (hkept j l hj).2.1
  · intro i j hi
    simpa using hv.inBounds i j (hkept i j hi).2.1
  · intro i j hi
    exact hv.issued i j (hkept i j hi).2.1
  · intro j hj
    rw [List.length_set]
    rcases List.mem_append.mp hj with hj | hj
    · exact hv.freeInBounds j hj
    · obtain rfl := List.mem_singleton.mp hj
      exact hv.inBounds id j hk
  · rw [List.nodup_append]
    refine ⟨hv.freeNodup, List.nodup_singleton k, ?_⟩
    intro j hj l hl heq
    obtain rfl := List.mem_singleton.mp hl
    subst heq
    exact hv.freeUnused j hj id hk
  · intro j hj i hi
    obtain ⟨-, hi, hne⟩ := hkept i j hi
    rcases List.mem_append.mp hj with hj | hj
    · exact hv.freeUnused j hj i hi
    · exact hne (List.mem_singleton.mp hj)
  · refine FreshMap.ext rfl (funext fun i => ?_)
    by_cases hi : i = id
    · subst hi
      simp [toMap, FreshMap.set, stored]
    · have hother : (v.idToIndex.erase id).get? i = v.idToIndex.get? i :=
        OrderedDict.get?_erase_ne _ hi
      cases hj : v.idToIndex.get? i with
      | none => simp [toMap, FreshMap.set, stored, hi, hother, hj]
      | some j =>
        have hne : k ≠ j := (hkept i j (by rw [hother, hj])).2.2.symm
        simp [toMap, FreshMap.set, stored, hi, hother, hj, hne]

/-- Removing what is not live throws before anything is changed. -/
theorem Tidy.remove_absent {v : CompVec C} (hv : v.Tidy) {id : ℕ} (h : v.stored id = none) :
    CompVec.remove id v = (.error atFault, v) := by
  rw [CompVec.remove, hv.stored_eq_none_iff.mp h]

/-! ## The calls -/

/-- The answer of a call that returns normally or throws. -/
def answerWith (f : α → Answer ℕ C) (r : Except Fault α × CompVec C) :
    Answer ℕ C × CompVec C :=
  match r.1 with
  | .ok a => (f a, r.2)
  | .error _ => (.throws, r.2)

/-- One call. The component that `at` returns a reference to may be changed through it, before the
next call. -/
def step (v : CompVec C) : Call ℕ C → Option (Answer ℕ C × CompVec C)
  | .add val => some (answerWith .key (v.add val))
  | .remove id => some (answerWith (fun _ => .done) (v.remove id))
  | .reach id f => some (answerWith .item (v.at id fun comp => (.ok comp, f comp)))
  | .size => some (.size v.size, v)

/-- Every call returns or throws. -/
theorem exists_step (v : CompVec C) (call : Call ℕ C) : ∃ o v', v.step call = some (o, v') := by
  cases call with
  | add | remove | reach | size => exact ⟨_, _, rfl⟩

/-- `at` finds the stored component when it is active. -/
theorem find_of_stored {v : CompVec C} {id : ℕ} {c : C} (h : v.stored id = some c)
    (hc : Component.isActive c = true) :
    ∃ k, v.idToIndex.get? id = some k ∧ v.find id = .ok (k, c) := by
  obtain ⟨k, hk, hvec⟩ := stored_eq_some_iff.mp h
  exact ⟨k, hk, find_eq_ok_iff.mpr ⟨hk, hvec, hc⟩⟩

theorem find_throws {v : CompVec C} {id : ℕ}
    (h : ∀ c, v.stored id = some c → ¬ Component.isActive c = true) :
    ∃ e, v.find id = .error e := by
  cases hf : v.find id with
  | error e => exact ⟨e, rfl⟩
  | ok r =>
    obtain ⟨hk, hvec, hactive⟩ := find_eq_ok_iff.mp (show v.find id = .ok (r.1, r.2) from hf)
    exact absurd hactive (h r.2 (stored_eq_some_iff.mpr ⟨r.1, hk, hvec⟩))


/-- What `at` gives depends on the stored component only. -/
theorem at_congr {v v' : CompVec C} {id : ℕ} (h : v'.stored id = v.stored id)
    (m : Fallible C Fault α) : (v'.at id m).1 = (v.at id m).1 := by
  have hread : ∀ w : CompVec C, (w.at id m).1 = (w.stored id).elim (.error atFault) fun c =>
      if Component.isActive c then (m c).1
      else .error (.outOfRange "compVec::isActiveCheck: component at index is inactive") := by
    intro w
    cases hk : w.idToIndex.get? id with
    | none => simp [CompVec.at, find, stored, hk]
    | some k =>
      cases hc : w.vec[k]? with
      | none => simp [CompVec.at, find, stored, hk, hc]
      | some c => by_cases hactive : Component.isActive c <;>
          simp [CompVec.at, find, stored, hk, hc, hactive]
  rw [hread, hread, h]

/-! ## The simulation -/

/-- **Each call** keeps the slots apart and does what the map does. -/
theorem Tidy.step {v v' : CompVec C} (hv : v.Tidy) {call : Call ℕ C} {o : Answer ℕ C}
    (h : v.step call = some (o, v')) : v'.Tidy ∧
      FreshMap.Step (fun c => Component.isActive c = true) v.toMap call o v'.toMap := by
  cases call with
  | add val =>
    obtain ⟨v₁, hadd, hv₁, hmap⟩ := hv.add val
    rw [CompVec.step, hadd] at h
    cases h
    refine ⟨hv₁, ?_⟩
    rw [hmap]
    exact .add val fun hk => by simpa [toMap] using hk.2
  | remove id =>
    cases hid : v.stored id with
    | none =>
      rw [CompVec.step, hv.remove_absent hid] at h
      cases h
      exact ⟨hv, .removeAbsent hid⟩
    | some c =>
      obtain ⟨v₁, hrem, hv₁, hmap⟩ := hv.remove hid
      rw [CompVec.step, hrem] at h
      cases h
      refine ⟨hv₁, ?_⟩
      rw [hmap]
      exact .remove hid
  | reach id f =>
    by_cases hc : ∃ c, v.stored id = some c ∧ Component.isActive c = true
    · obtain ⟨c, hid, hactive⟩ := hc
      obtain ⟨k, hk, hfind⟩ := find_of_stored hid hactive
      simp only [CompVec.step, CompVec.at, hfind] at h
      cases h
      obtain ⟨hv₁, hmap⟩ := hv.set hk (f c)
      refine ⟨hv₁, ?_⟩
      rw [hmap]
      exact .reach f hid hactive
    · have hnone : ∀ c, v.stored id = some c → ¬ Component.isActive c = true :=
        fun c hid hactive => hc ⟨c, hid, hactive⟩
      obtain ⟨e, hfind⟩ := find_throws hnone
      simp only [CompVec.step, CompVec.at, hfind] at h
      cases h
      exact ⟨hv, .reachAbsent f hnone⟩
  | size =>
    cases h
    refine ⟨hv, ?_⟩
    rw [hv.size_eq]
    exact .size _

/-- A run from the empty vector is a run of the map from the empty map. -/
theorem run_refines {v : CompVec C} {calls : List (Call ℕ C)} {os : List (Answer ℕ C)}
    (h : Machine.run CompVec.step new calls = some (os, v)) : v.Tidy ∧
      Machine.Runs (FreshMap.Step fun c => Component.isActive c = true) .empty calls os
        v.toMap := by
  obtain ⟨m, hruns, hv, rfl⟩ := Machine.simulated
    (R := fun v m => v.Tidy ∧ m = v.toMap) (fun v m c o v' hR hstep => by
      obtain ⟨hv, rfl⟩ := hR
      obtain ⟨hv', hcall⟩ := hv.step hstep
      exact ⟨_, hcall, hv', rfl⟩) ⟨tidy_new, toMap_new.symm⟩ h
  exact ⟨hv, hruns⟩

/-- **A finite map with fresh identifiers.** Every sequence of calls runs through from an empty
vector, and there is a map that the same calls lead to with the same answers. No identifier is
returned twice, what is not live is not removed, the size is the number of live identifiers, and no
call changes what `at` gives for an identifier that it is not about. -/
theorem refines_freshMap (calls : List (Call ℕ C)) :
    ∃ (os : List (Answer ℕ C)) (v : CompVec C) (m : FreshMap ℕ C),
      Machine.run CompVec.step new calls = some (os, v) ∧
      Machine.Runs (FreshMap.Step fun c => Component.isActive c = true) .empty calls os m ∧
      (os.filterMap Answer.key?).Nodup ∧ v.size = m.live.ncard ∧
      (∀ id, m.content id = none → v.remove id = (.error atFault, v)) ∧
      ∀ call o v', v.step call = some (o, v') → ∀ id, FreshMap.concerns call o ≠ some id →
        ∀ f : Fallible C Fault α, (v'.at id f).1 = (v.at id f).1 := by
  obtain ⟨os, v, h⟩ := Machine.exists_run exists_step (new : CompVec C) calls
  obtain ⟨hv, hruns⟩ := run_refines h
  refine ⟨os, v, v.toMap, h, hruns, (FreshMap.nodup_keys hruns).1, hv.size_eq, ?_, ?_⟩
  · intro id hid
    exact hv.remove_absent hid
  · intro call o v' hcall id hid f
    obtain ⟨-, hstep⟩ := hv.step hcall
    exact at_congr (hstep.frame hid) f

/-- A component without attributes. -/
def plain (typeName : String) : UserComponent := .new typeName ⟨typeName, ∅⟩

/-- The slot of a removed component is reused under a new identifier, and what is in it now is
changed there. -/
theorem refines_freshMap_reuse : ∃ (os : List (Answer ℕ UserComponent)) (v : CompVec UserComponent)
    (m : FreshMap ℕ UserComponent),
    Machine.Runs (FreshMap.Step fun c => Component.isActive c = true) .empty
      [.add (plain "a"), .add (plain "b"), .remove 1, .add (plain "c"),
        .reach 3 fun _ => plain "d", .reach 3 id] os m ∧
    os = [.key 1, .key 2, .done, .key 3, .item (plain "c"), .item (plain "d")] ∧
    v.size = m.live.ncard ∧ v.vec.length = 2 := by
  obtain ⟨os, v, m, hrun, hruns, -, hsize, -⟩ := @refines_freshMap UserComponent Unit _
    [.add (plain "a"), .add (plain "b"), .remove 1, .add (plain "c"),
      .reach 3 fun _ => plain "d", .reach 3 id]
  cases hrun
  exact ⟨_, _, m, hruns, rfl, hsize, rfl⟩

end Bentobox.CompVec
