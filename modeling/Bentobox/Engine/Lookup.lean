import Bentobox.Engine.ComponentStore

/-!
# Looking components up

`Stores.component` is the component that `getComponent` works on. When the indexes
are consistent (`Stores.Wf`) two different pairs of a type name and an entity never
lead to the same slot, so working on the component of one pair leaves the component
of every other pair as it was.
-/
namespace Bentobox

/-- Different identifiers are kept in different slots. -/
def CompVec.SlotsDistinct {C : Type} (v : CompVec C) : Prop :=
  ∀ i j k, v.idToIndex.get? i = some k → v.idToIndex.get? j = some k → i = j

namespace CompVec
variable {C : Type} [Component C] {α : Type}

theorem find_eq_ok_iff {v : CompVec C} {id index : ℕ} {c : C} :
    v.find id = .ok (index, c) ↔
      v.idToIndex.get? id = some index ∧ v.vec[index]? = some c ∧ Component.isActive c = true := by
  rw [find]
  cases hi : v.idToIndex.get? id with
  | none => simp
  | some k =>
    constructor
    · intro h
      cases hv : v.vec[k]? with
      | none => simp [hv] at h
      | some d =>
        simp only [hv] at h
        split_ifs at h with hd
        cases h
        exact ⟨rfl, hv, hd⟩
    · rintro ⟨hk, hv, hc⟩
      cases hk
      simp [hv, hc]

/-- Storing an active component under an identifier changes what is found there only. -/
theorem find_set {v : CompVec C} (hv : v.SlotsDistinct) {id index : ℕ} {c c' : C}
    (h : v.find id = .ok (index, c)) (hc' : Component.isActive c' = true) (i : ℕ) :
    ({ v with vec := v.vec.set index c' } : CompVec C).find i =
      if i = id then .ok (index, c') else v.find i := by
  obtain ⟨hid, hvec, -⟩ := find_eq_ok_iff.mp h
  have hlt : index < v.vec.length := List.getElem?_eq_some_iff.mp hvec |>.1
  by_cases hi : i = id
  · subst hi
    rw [if_pos rfl, find_eq_ok_iff]
    exact ⟨hid, by simp [hlt], hc'⟩
  · rw [if_neg hi]
    unfold find
    cases hk : v.idToIndex.get? i with
    | none => rfl
    | some k =>
      have hne : index ≠ k := by
        rintro rfl
        exact hi (hv i id index hk hid)
      simp only [List.getElem?_set_ne hne]

end CompVec

/-- The names of the groups and the components of the entities do not overlap. -/
structure IndexStore.Wf (s : IndexStore) : Prop where
  groupsDistinct : ∀ n n' g, s.componentType.typeNameGroupMap.get? n = some g →
    s.componentType.typeNameGroupMap.get? n' = some g → n = n'
  entitiesDisjoint : ∀ e e' comps comps' id, s.entity.entityCompMap.get? e = some comps →
    s.entity.entityCompMap.get? e' = some comps' → id ∈ comps → id ∈ comps' → e = e'

/-- The stores are consistent. -/
structure Stores.Wf (s : Stores) : Prop where
  index : s.indexStore.Wf
  slots : ∀ g v, s.compStore.get? g = some v → v.SlotsDistinct

namespace Stores

theorem wf_new : Stores.new.Wf := by
  refine ⟨⟨?_, ?_⟩, ?_⟩
  · intro n n' g h
    cases h
  · intro e e' comps comps' id h
    cases h
  · intro g v h
    cases h

/-- The component of a type that is attached to an entity. -/
def component (typeName : String) (entityId : EntityId) (s : Stores) :
    Except Fault UserComponent :=
  s.findComponent typeName entityId >>= fun id =>
    match s.compStore.get? id.1 with
    | none => .error atFault
    | some vec => Prod.snd <$> vec.find id.2

/-- A component that is found is one of its type and one of its entity. -/
theorem findComponent_eq_ok {n : String} {e : EntityId} {s : Stores} {id : CompStoreId}
    (h : s.findComponent n e = .ok id) :
    s.indexStore.componentType.typeNameGroupMap.get? n = some id.1 ∧
      ∃ comps, s.indexStore.entity.entityCompMap.get? e = some comps ∧ id ∈ comps := by
  unfold findComponent ComponentTypeIndex.filterCompType EntityIndex.filterEntityId at h
  cases hg : s.indexStore.componentType.typeNameGroupMap.get? n with
  | none => rw [hg] at h; cases h
  | some g =>
    cases he : s.indexStore.entity.entityCompMap.get? e with
    | none => rw [hg, he] at h; cases h
    | some comps =>
      rw [hg, he] at h
      simp only [Fallible.ok_bind] at h
      split at h
      · cases h
      next id' heq =>
        cases h
        have hm : id ∈ comps.filter fun comp => comp ∈
            s.compStore.asCompSet.filter fun comp => comp.1 = g := by
          rw [heq]; simp
        simp only [List.mem_filter, decide_eq_true_eq] at hm
        exact ⟨by rw [hm.2.2], comps, rfl, hm.1⟩
      · cases h

/-- **No aliases**: a component is found for one pair of a type name and an entity only. -/
theorem findComponent_injective {s : Stores} (hs : s.indexStore.Wf) {n n' : String}
    {e e' : EntityId} {id : CompStoreId} (h : s.findComponent n e = .ok id)
    (h' : s.findComponent n' e' = .ok id) : n = n' ∧ e = e' := by
  obtain ⟨hg, comps, he, hm⟩ := findComponent_eq_ok h
  obtain ⟨hg', comps', he', hm'⟩ := findComponent_eq_ok h'
  exact ⟨hs.groupsDistinct n n' _ hg hg', hs.entitiesDisjoint e e' _ _ _ he he' hm hm'⟩

/-- A component that is reached is stored in the group of its type name. -/
theorem component_mem {s : Stores} {n : String} {e : EntityId} {c : UserComponent}
    (h : s.component n e = .ok c) :
    ∃ g v, s.indexStore.componentType.typeNameGroupMap.get? n = some g ∧
      s.compStore.get? g = some v ∧ c ∈ v.vec := by
  obtain ⟨⟨g, id⟩, hid, h⟩ := Fallible.result_bind_eq_ok_iff.mp h
  obtain ⟨hn, -⟩ := findComponent_eq_ok hid
  cases hg : s.compStore.get? g with
  | none => simp only [hg] at h; cases h
  | some v =>
    simp only [hg] at h
    obtain ⟨⟨index, c'⟩, hf, rfl⟩ := Fallible.map_eq_ok_iff.mp h
    exact ⟨g, v, hn, hg, List.mem_of_getElem? (CompVec.find_eq_ok_iff.mp hf).2.1⟩

/-- The set of all components has the first identifiers of each group. -/
theorem mem_asCompSet {store : ComponentStore} {id : CompStoreId} :
    id ∈ store.asCompSet ↔ ∃ v, store.get? id.1 = some v ∧ 1 ≤ id.2 ∧ id.2 ≤ v.size := by
  simp only [ComponentStore.asCompSet, List.mem_flatMap, List.mem_map, List.mem_range]
  constructor
  · rintro ⟨⟨g, v⟩, hmem, i, hi, rfl⟩
    exact ⟨v, OrderedDict.get?_eq_some_iff.mpr hmem, Nat.succ_pos i, hi⟩
  · rintro ⟨v, hv, h1, hle⟩
    obtain ⟨g, i⟩ := id
    simp only at h1 hle
    refine ⟨(g, v), OrderedDict.get?_eq_some_iff.mp hv, i - 1, ?_, Prod.ext rfl ?_⟩
    · change i - 1 < v.size
      omega
    · change i - 1 + 1 = i
      omega

/-- Replacing a vector by one of the same size changes no set of components. -/
theorem asCompSet_insert {store : ComponentStore} {g : ℕ} {v v' : CompVec UserComponent}
    (h : store.get? g = some v) (hsize : v'.size = v.size) :
    ComponentStore.asCompSet (store.insert g v') = store.asCompSet := by
  rw [ComponentStore.asCompSet]
  rw [OrderedDict.entries_insert_of_mem (OrderedDict.mem_keys_of_get? h), List.flatMap_map]
  simp only [List.flatMap_def]
  congr 1
  refine List.map_congr_left fun p hp => ?_
  by_cases hk : p.1 = g
  · have hv : store.get? p.1 = some p.2 := OrderedDict.get?_eq_some_iff.mpr hp
    rw [hk, h] at hv
    cases hv
    simp [hk, hsize]
  · simp [hk]

variable {α : Type}

/-- The components found do not depend on their contents. -/
theorem findComponent_insert {s : Stores} {g : ℕ} {v v' : CompVec UserComponent}
    (h : s.compStore.get? g = some v) (hsize : v'.size = v.size) (n : String) (e : EntityId) :
    ({ s with compStore := s.compStore.insert g v' } : Stores).findComponent n e =
      s.findComponent n e := by
  simp only [findComponent, asCompSet_insert h hsize]

theorem component_insert {s : Stores} {g : ℕ} {v v' : CompVec UserComponent}
    (h : s.compStore.get? g = some v) (hsize : v'.size = v.size) (n : String) (e : EntityId) :
    ({ s with compStore := s.compStore.insert g v' } : Stores).component n e =
      s.findComponent n e >>= fun id =>
        if id.1 = g then Prod.snd <$> v'.find id.2
        else match s.compStore.get? id.1 with
          | none => .error atFault
          | some vec => Prod.snd <$> vec.find id.2 := by
  rw [component, findComponent_insert h hsize]
  cases s.findComponent n e with
  | error e => rfl
  | ok id =>
    simp only [Fallible.ok_bind, OrderedDict.get?_insert]
    by_cases hg : id.1 = g <;> simp [hg]

theorem component_of_find {s : Stores} {n : String} {e : EntityId} {g : ℕ} {id : ℕ}
    {v : CompVec UserComponent} (hf : s.findComponent n e = .ok (g, id))
    (hg : s.compStore.get? g = some v) : s.component n e = Prod.snd <$> v.find id := by
  rw [component, hf, Fallible.ok_bind, hg]

theorem Wf.insert {s : Stores} (hs : s.Wf) {g : ℕ} {v : CompVec UserComponent}
    (hv : v.SlotsDistinct) : ({ s with compStore := s.compStore.insert g v } : Stores).Wf := by
  refine ⟨hs.index, fun g' v' h => ?_⟩
  rw [OrderedDict.get?_insert] at h
  split_ifs at h
  · cases h; exact hv
  · exact hs.slots g' v' h

/-- The result of working on a component is the result on the component that is found. -/
theorem getComponent_fst (s : Stores) (n : String) (e : EntityId)
    (m : Fallible UserComponent Fault α) :
    (getComponent n e m s).1 = (s.component n e >>= fun c => (m c).1) := by
  rw [getComponent, component]
  cases hf : s.findComponent n e with
  | error x => rfl
  | ok gid =>
    obtain ⟨g, id⟩ := gid
    simp only [Fallible.ok_bind]
    cases hg : s.compStore.get? g with
    | none => rfl
    | some v =>
      simp only [CompVec.at]
      cases hv : v.find id with
      | error x => rfl
      | ok ic => rfl

/-- A component that is not found is reported by an exception. -/
theorem component_ne_undefined (s : Stores) (n : String) (e : EntityId) :
    s.component n e ≠ .error .undefined := by
  intro h
  unfold component findComponent ComponentTypeIndex.filterCompType EntityIndex.filterEntityId at h
  cases hg : s.indexStore.componentType.typeNameGroupMap.get? n with
  | none => rw [hg] at h; cases h
  | some g =>
    cases he : s.indexStore.entity.entityCompMap.get? e with
    | none => rw [hg, he] at h; cases h
    | some comps =>
      rw [hg, he] at h
      simp only [Fallible.ok_bind] at h
      split at h
      · cases h
      next id _ =>
        simp only [Fallible.ok_bind] at h
        cases hv : s.compStore.get? id.1 with
        | none => rw [hv] at h; cases h
        | some v =>
          simp only [hv, Fallible.map_eq_error_iff, CompVec.find] at h
          split at h
          · cases h
          · split at h
            · cases h
            · split_ifs at h; cases h
      · cases h

/-- **Working on a component** has the result of the computation on it, replaces it by the
component reached, and changes the component of no other pair. -/
theorem getComponent_spec {s : Stores} (hs : s.Wf) (n : String) (e : EntityId)
    {m : Fallible UserComponent Fault α} (hm : ∀ c, (m c).2.isActive = c.isActive) :
    (getComponent n e m s).1 = (s.component n e >>= fun c => (m c).1) ∧
      (∀ n' e', (getComponent n e m s).2.component n' e' =
        if n' = n ∧ e' = e then (fun c => (m c).2) <$> s.component n e
        else s.component n' e') ∧
      (getComponent n e m s).2.Wf := by
  -- a lookup that fails leaves every component in place
  have hfail : ∀ (s' : Stores) x, s.component n e = .error x →
      (∀ n' e', s'.component n' e' = s.component n' e') → ∀ n' e', s'.component n' e' =
        if n' = n ∧ e' = e then (fun c => (m c).2) <$> s.component n e
        else s.component n' e' := by
    intro s' x hx hs' n' e'
    rw [hs']
    split_ifs with hne
    · rw [hne.1, hne.2, hx, Fallible.map_error]
    · rfl
  rw [getComponent]
  cases hf : s.findComponent n e with
  | error x =>
    have hx : s.component n e = .error x := by rw [component, hf, Fallible.error_bind]
    exact ⟨by rw [hx, Fallible.error_bind], hfail s x hx fun _ _ => rfl, hs⟩
  | ok gid =>
    obtain ⟨g, id⟩ := gid
    cases hg : s.compStore.get? g with
    | none =>
      have hx : s.component n e = .error atFault := by rw [component, hf, Fallible.ok_bind, hg]
      simp only [hg]
      exact ⟨by rw [hx, Fallible.error_bind], hfail s atFault hx fun _ _ => rfl, hs⟩
    | some v =>
      have hc := component_of_find hf hg
      simp only [hg]
      cases hv : v.find id with
      | error x =>
        have hx : s.component n e = .error x := by rw [hc, hv, Fallible.map_error]
        have hat : v.at id m = (.error x, v) := by rw [CompVec.at, hv]
        rw [hat]
        refine ⟨by rw [hx, Fallible.error_bind], hfail _ x hx fun n' e' => ?_,
          hs.insert (hs.slots g v hg)⟩
        rw [component_insert hg rfl, component]
        cases s.findComponent n' e' with
        | error y => rfl
        | ok id' =>
          simp only [Fallible.ok_bind]
          split_ifs with hid
          · rw [hid, hg]
          · rfl
      | ok ic =>
        obtain ⟨index, c⟩ := ic
        have hx : s.component n e = .ok c := by rw [hc, hv, Fallible.map_ok]
        have hact : Component.isActive (m c).2 = true :=
          (hm c).trans (CompVec.find_eq_ok_iff.mp hv).2.2
        have hat : v.at id m = ((m c).1, { v with vec := v.vec.set index (m c).2 }) := by
          rw [CompVec.at, hv]
        rw [hat]
        refine ⟨by rw [hx, Fallible.ok_bind], fun n' e' => ?_,
          hs.insert (hs.slots g v hg)⟩
        have hsize : ({ v with vec := v.vec.set index (m c).2 } : CompVec _).size = v.size := rfl
        refine (component_insert hg hsize n' e').trans ?_
        split_ifs with hne
        · rw [hne.1, hne.2, hf, Fallible.ok_bind, if_pos rfl,
            CompVec.find_set (hs.slots g v hg) hv hact, if_pos rfl, hx]
          rfl
        · rw [component]
          cases hf' : s.findComponent n' e' with
          | error y => rfl
          | ok id' =>
            simp only [Fallible.ok_bind]
            split_ifs with hid
            · have hid' : id'.2 ≠ id := by
                rintro rfl
                rw [← hid] at hf
                exact hne (findComponent_injective hs.index hf' hf)
              rw [CompVec.find_set (hs.slots g v hg) hv hact, if_neg hid', hid, hg]
            · rfl

end Stores
end Bentobox
