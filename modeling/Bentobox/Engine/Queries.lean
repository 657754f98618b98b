import Mathlib.Order.Interval.Finset.Nat
import Bentobox.Engine.Slots

/-!
# Querying the stores

`asCompSet` does not list the identifiers of a group: it counts them, and takes them to be
the first ones. That is so while the removed identifiers of a group all lie behind its live
ones (`Stores.NoHoles`).
-/
namespace Bentobox

/-! ## Operations on the stores -/

/-- `getCompVec(store, group).remove(id)` -/
def ComponentStore.remove (group id : ℕ) : Fallible ComponentStore Fault Unit := fun store =>
  match store.get? group with
  | none => (.error atFault, store)
  | some vec => ((vec.remove id).1, store.insert group (vec.remove id).2)

inductive StoreOp
  | addComponentType (name : String)
  | addComponent (c : UserComponent) (group : ℕ)
  | remove (group id : ℕ)
  | addEntityId
  | setEntityIds (ids : List EntityId)
  | attach (entityId : EntityId) (compStoreId : CompStoreId)
  | detach (entityId : EntityId) (compStoreId : CompStoreId)

namespace Stores

/-- An operation on the indexes of entities. -/
def onEntities (s : Stores) (f : EntityIndex → EntityIndex) : Stores :=
  { s with indexStore := { s.indexStore with entity := f s.indexStore.entity } }

/-- The stores after an operation, which may have thrown. -/
def apply (s : Stores) : StoreOp → Stores
  | .addComponentType name => { s with indexStore := { s.indexStore with
      componentType := (s.indexStore.componentType.addComponentType name).2 } }
  | .addComponent c group => { s with compStore := (s.compStore.addComponent c group).2 }
  | .remove group id => { s with compStore := (s.compStore.remove group id).2 }
  | .addEntityId => s.onEntities fun index => index.addEntityId.2
  | .setEntityIds ids => s.onEntities (EntityIndex.setEntityIds ids)
  | .attach e id => s.onEntities fun index => (index.addComponent e id).2
  | .detach e id => s.onEntities fun index => (index.removeComponent e id).2

/-- `asCompSet | filterCompType(name) | filterEntityId(e)` -/
def query (typeName : String) (entityId : EntityId) (s : Stores) : Except Fault ComponentSet :=
  s.indexStore.componentType.filterCompType typeName s.compStore.asCompSet >>=
    s.indexStore.entity.filterEntityId entityId

/-! ## What the queries are to return -/

/-- The component is in its group, and was not removed. -/
def Live (s : Stores) (id : CompStoreId) : Prop :=
  ∃ v, s.compStore.get? id.1 = some v ∧ id.2 ∈ v.idToIndex.keys

/-- The queries return exactly the live components. -/
structure QueriesExact (s : Stores) : Prop where
  asCompSet : ∀ id, id ∈ s.compStore.asCompSet ↔ s.Live id
  query : ∀ name e comps, s.query name e = .ok comps → ∀ id, id ∈ comps ↔ s.Live id ∧
    s.indexStore.componentType.typeNameGroupMap.get? name = some id.1 ∧
    ∃ attached, s.indexStore.entity.entityCompMap.get? e = some attached ∧ id ∈ attached

/-- No identifier that was removed from a group is below one that is live. -/
def NoHoles (s : Stores) : Prop :=
  ∀ group id, s.Live (group, id) → ∀ i, 1 ≤ i → i ≤ id → s.Live (group, i)

end Stores

/-! ## Counting identifiers -/

/-- A set of positive numbers is an initial segment when it is the first as many. -/
theorem mem_iff_le_card_iff {ids : Finset ℕ} (hpos : ∀ i ∈ ids, 1 ≤ i) :
    (∀ i, (1 ≤ i ∧ i ≤ ids.card) ↔ i ∈ ids) ↔ ∀ id ∈ ids, ∀ i, 1 ≤ i → i ≤ id → i ∈ ids := by
  constructor
  · intro h id hid i hi hle
    have := (h id).mpr hid
    exact (h i).mp ⟨hi, by omega⟩
  · intro h
    have hsub : ids ⊆ Finset.Icc 1 ids.card := by
      intro id hid
      have hbelow : Finset.Icc 1 id ⊆ ids := by
        intro i hi
        obtain ⟨hi, hle⟩ := Finset.mem_Icc.mp hi
        exact h id hid i hi hle
      have hcard := Finset.card_le_card hbelow
      rw [Nat.card_Icc] at hcard
      have := hpos id hid
      exact Finset.mem_Icc.mpr ⟨this, by omega⟩
    have heq : ids = Finset.Icc 1 ids.card :=
      Finset.eq_of_subset_of_card_le hsub (by rw [Nat.card_Icc]; omega)
    intro i
    rw [← Finset.mem_Icc, ← heq]

namespace CompVec
variable {C : Type}

/-- The first identifiers are the live ones exactly when none of them was removed. -/
theorem Tidy.first_ids_iff {v : CompVec C} (hv : v.Tidy) :
    (∀ i, (1 ≤ i ∧ i ≤ v.size) ↔ i ∈ v.idToIndex.keys) ↔
      ∀ id ∈ v.idToIndex.keys, ∀ i, 1 ≤ i → i ≤ id → i ∈ v.idToIndex.keys := by
  have hcard : v.size = v.idToIndex.keys.toFinset.card := by
    rw [List.toFinset_card_of_nodup v.idToIndex.nodup_keys, OrderedDict.length_keys, size]
  have hpos : ∀ i ∈ v.idToIndex.keys.toFinset, 1 ≤ i := by
    intro i hi
    rw [List.mem_toFinset, ← OrderedDict.contains_iff] at hi
    obtain ⟨k, hk⟩ := Option.isSome_iff_exists.mp hi
    exact (hv.issued i k hk).1
  have hids := mem_iff_le_card_iff hpos
  simpa only [hcard, List.mem_toFinset] using hids

end CompVec

namespace Stores

/-! ## The invariant of the stores -/

/-- The vectors of all groups are in order. -/
def Tidy (s : Stores) : Prop := ∀ group v, s.compStore.get? group = some v → v.Tidy

theorem tidy_insert {s : Stores} (hs : s.Tidy) {group : ℕ} {v : CompVec UserComponent}
    (hv : v.Tidy) : ({ s with compStore := s.compStore.insert group v } : Stores).Tidy := by
  intro g w hw
  rw [OrderedDict.get?_insert] at hw
  split_ifs at hw with hg
  · cases hw
    exact hv
  · exact hs g w hw

/-- **Each operation** leaves the vectors in order, whether it throws or not. -/
theorem Tidy.apply {s : Stores} (hs : s.Tidy) (op : StoreOp) : (s.apply op).Tidy := by
  cases op with
  | addComponent c group =>
    have hv : ((s.compStore.get? group).getD .new).Tidy := by
      cases h : s.compStore.get? group with
      | none => exact CompVec.tidy_new
      | some v => exact hs group v h
    obtain ⟨v', hadd, hv', -⟩ := hv.add c
    have hvec : (((s.compStore.get? group).getD .new).add c).2.Tidy := by
      rw [hadd]
      exact hv'
    exact tidy_insert hs hvec
  | remove group id =>
    cases h : s.compStore.get? group with
    | none =>
      have hsame : s.apply (.remove group id) = s := by
        simp only [Stores.apply, ComponentStore.remove, h]
      rw [hsame]
      exact hs
    | some v =>
      have hvec : (v.remove id).2.Tidy := by
        cases hid : v.stored id with
        | none =>
          rw [(hs group v h).remove_absent hid]
          exact hs group v h
        | some c =>
          obtain ⟨v', hrem, hv', -⟩ := (hs group v h).remove hid
          rw [hrem]
          exact hv'
      simp only [Stores.apply, ComponentStore.remove, h]
      exact tidy_insert hs hvec
  | addComponentType | addEntityId | setEntityIds | attach | detach => exact hs

/-- The stores after a sequence of operations, from empty ones. -/
def after (ops : List StoreOp) : Stores := ops.foldl apply new

theorem tidy_after (ops : List StoreOp) : (after ops).Tidy := by
  have hrun : ∀ s : Stores, s.Tidy → (ops.foldl apply s).Tidy := by
    induction ops with
    | nil => exact fun _ hs => hs
    | cons op ops ih => exact fun s hs => ih (s.apply op) (hs.apply op)
  refine hrun new ?_
  intro group v h
  cases h

/-! ## What the queries return -/

/-- The pipeline selects from the set that it starts with. -/
theorem mem_query {s : Stores} {name : String} {e : EntityId} {comps : ComponentSet}
    (h : s.query name e = .ok comps) (id : CompStoreId) :
    id ∈ comps ↔ id ∈ s.compStore.asCompSet ∧
      s.indexStore.componentType.typeNameGroupMap.get? name = some id.1 ∧
      ∃ attached, s.indexStore.entity.entityCompMap.get? e = some attached ∧ id ∈ attached := by
  obtain ⟨ofType, htype, hentity⟩ := Fallible.result_bind_eq_ok_iff.mp h
  unfold ComponentTypeIndex.filterCompType at htype
  unfold EntityIndex.filterEntityId at hentity
  cases hg : s.indexStore.componentType.typeNameGroupMap.get? name with
  | none => rw [hg] at htype; cases htype
  | some g =>
    cases hc : s.indexStore.entity.entityCompMap.get? e with
    | none => rw [hc] at hentity; cases hentity
    | some attached =>
      rw [hg] at htype
      rw [hc] at hentity
      cases htype
      cases hentity
      simp only [List.mem_filter, decide_eq_true_eq, Option.some.injEq, exists_eq_left']
      constructor
      · rintro ⟨hm, hset, hid⟩
        exact ⟨hset, hid.symm, hm⟩
      · rintro ⟨hset, hid, hm⟩
        exact ⟨hm, hset, hid.symm⟩

/-- `asCompSet` is exact when the live identifiers of each group are the first ones. -/
theorem Tidy.asCompSet_iff {s : Stores} (hs : s.Tidy) :
    (∀ id, id ∈ s.compStore.asCompSet ↔ s.Live id) ↔ s.NoHoles := by
  have hgroup : ∀ group v, s.compStore.get? group = some v → ∀ i,
      (((group, i) ∈ s.compStore.asCompSet ↔ s.Live (group, i)) ↔
        ((1 ≤ i ∧ i ≤ v.size) ↔ i ∈ v.idToIndex.keys)) := by
    intro group v h i
    simp only [mem_asCompSet, Live, h, Option.some.injEq, exists_eq_left']
  constructor
  · intro hexact group id hlive i hi hle
    obtain ⟨v, hv, hid⟩ := hlive
    have hfirst := (hs group v hv).first_ids_iff.mp fun j =>
      (hgroup group v hv j).mp (hexact (group, j))
    exact ⟨v, hv, hfirst id hid i hi hle⟩
  · rintro hholes ⟨group, i⟩
    cases hv : s.compStore.get? group with
    | none => simp [mem_asCompSet, Live, hv]
    | some v =>
      refine (hgroup group v hv i).mpr ((hs group v hv).first_ids_iff.mpr ?_ i)
      intro id hid j hj hle
      obtain ⟨w, hw, hmem⟩ := hholes group id ⟨v, hv, hid⟩ j hj hle
      obtain rfl : v = w := Option.some.inj (hv.symm.trans hw)
      exact hmem

/-- **The queries are exact** after any operations, exactly while in every group no removed
identifier is below a live one. -/
theorem queries_exact_iff (ops : List StoreOp) :
    (after ops).QueriesExact ↔ (after ops).NoHoles := by
  rw [← (tidy_after ops).asCompSet_iff]
  constructor
  · intro h
    exact h.asCompSet
  · intro h
    refine ⟨h, ?_⟩
    intro name e comps hq id
    rw [mem_query hq id, h id]

/-- Of two components the first is removed: the query returns it, and misses the second. -/
theorem queries_miss_live : ¬ ∀ ops, (after ops).QueriesExact := by
  intro h
  have hexact := (h [.addComponent (CompVec.plain "a") 0, .addComponent (CompVec.plain "b") 0,
    .remove 0 1]).asCompSet (0, 2)
  have hlive : (after [.addComponent (CompVec.plain "a") 0, .addComponent (CompVec.plain "b") 0,
    .remove 0 1]).Live (0, 2) := ⟨_, rfl, by decide⟩
  revert hexact
  simp only [hlive, iff_true]
  decide

end Stores
end Bentobox
