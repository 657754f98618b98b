import Bentobox.Engine.Simulation

/-!
# The constructor never fails

While a simulation is built, no component has been removed or written to yet
(`Stores.Building`). Every step of the constructor keeps this, so building
succeeds, the stores that come out are consistent, and no attribute has a value.
The identifiers are those of the pure function `setEntityIdsFrom`.
-/
namespace Bentobox

/-- Nothing was ever removed: identifier `i` sits in slot `i - 1`, and no attribute is set. -/
structure CompVec.Fresh (v : CompVec UserComponent) : Prop where
  inactive : v.inactiveCompIdx = []
  ids : ∀ i k, v.idToIndex.get? i = some k ↔ i = k + 1 ∧ i ≤ v.lastId
  length : v.vec.length = v.lastId
  blank : ∀ c ∈ v.vec, c.values = ∅

namespace CompVec

theorem fresh_new : (new : CompVec UserComponent).Fresh where
  inactive := rfl
  ids i k := by
    constructor
    · intro h; cases h
    · rintro ⟨rfl, h⟩; cases h
  length := rfl
  blank := by simp [new]

theorem Fresh.slotsDistinct {v : CompVec UserComponent} (hv : v.Fresh) : v.SlotsDistinct := by
  intro i j k hi hj
  rw [hv.ids] at hi hj
  omega

/-- Adding to a fresh vector issues the next identifier. -/
theorem Fresh.add {v : CompVec UserComponent} (hv : v.Fresh) {c : UserComponent}
    (hc : c.values = ∅) : ∃ v', CompVec.add c v = (.ok (v.lastId + 1), v') ∧ v'.Fresh ∧
      v'.lastId = v.lastId + 1 ∧ v'.vec = v.vec ++ [c] := by
  have hnew : v.idToIndex.contains (v.lastId + 1) = false := by
    rw [OrderedDict.contains]
    cases h : v.idToIndex.get? (v.lastId + 1) with
    | none => rfl
    | some k => have := (hv.ids _ _).mp h; omega
  have hadd : addToVec c v = (.ok v.vec.length, { v with vec := v.vec ++ [c] }) := by
    rw [addToVec, hv.inactive]
  refine ⟨⟨v.lastId + 1, v.idToIndex.insert (v.lastId + 1) v.vec.length, v.inactiveCompIdx,
    v.vec ++ [c]⟩, ?_, ⟨hv.inactive, fun i k => ?_, by simp [hv.length], ?_⟩, rfl, rfl⟩
  · rw [CompVec.add, Fallible.run_bind_of_ok hadd]
    simp [insertNextId, hnew]
  · rw [OrderedDict.get?_insert, hv.length]
    split_ifs with hi
    · subst hi
      simp only [Option.some.injEq]
      omega
    · rw [hv.ids]
      dsimp only
      omega
  · intro d hd
    rcases List.mem_append.mp hd with hd | hd
    · exact hv.blank d hd
    · rw [List.mem_singleton.mp hd, hc]

end CompVec

/-- Every name has its own group, and the groups in use lie below the counter. -/
structure ComponentTypeIndex.Wf (t : ComponentTypeIndex) : Prop where
  groups : ∀ n g, t.typeNameGroupMap.get? n = some g → g < t.compGroup
  distinct : ∀ n n' g, t.typeNameGroupMap.get? n = some g → t.typeNameGroupMap.get? n' = some g →
    n = n'

namespace ComponentTypeIndex

theorem Wf.addComponentType {t : ComponentTypeIndex} (ht : t.Wf) (name : String) :
    (t.addComponentType name).2.Wf := by
  rw [ComponentTypeIndex.addComponentType]
  cases h : t.typeNameGroupMap.get? name with
  | some g => exact ht
  | none =>
    refine ⟨fun n g hn => ?_, fun n n' g hn hn' => ?_⟩
    · rw [OrderedDict.get?_insert] at hn
      split_ifs at hn
      · cases hn; exact Nat.lt_succ_self _
      · exact Nat.lt_succ_of_lt (ht.groups n g hn)
    · rw [OrderedDict.get?_insert] at hn hn'
      split_ifs at hn hn' with h₁ h₂ h₂
      · rw [h₁, h₂]
      · cases hn; exact absurd (ht.groups n' _ hn') (lt_irrefl _)
      · cases hn'; exact absurd (ht.groups n _ hn) (lt_irrefl _)
      · exact ht.distinct n n' g hn hn'

theorem get?_addComponentType (t : ComponentTypeIndex) (name n : String) :
    (t.addComponentType name).2.typeNameGroupMap.get? n =
      if n = name then some (t.addComponentType name).1 else t.typeNameGroupMap.get? n := by
  rw [addComponentType]
  cases h : t.typeNameGroupMap.get? name with
  | some g => split_ifs with hn <;> simp [hn, h]
  | none => rw [OrderedDict.get?_insert]

/-- The group issued is the one the name had, or lies at the counter. -/
theorem addComponentType_fst (t : ComponentTypeIndex) (name : String) :
    t.typeNameGroupMap.get? name = some (t.addComponentType name).1 ∨
      (t.addComponentType name).1 = t.compGroup := by
  rw [addComponentType]
  cases h : t.typeNameGroupMap.get? name with
  | some g => exact .inl rfl
  | none => exact .inr rfl

theorem compGroup_le (t : ComponentTypeIndex) (name : String) :
    t.compGroup ≤ (t.addComponentType name).2.compGroup := by
  rw [addComponentType]
  cases h : t.typeNameGroupMap.get? name with
  | some g => exact le_rfl
  | none => exact Nat.le_succ _

end ComponentTypeIndex

/-- The stores of a simulation that is being built with the given component definitions. -/
structure Stores.Building (defs : OrderedDict String ComponentDef) (s : Stores) : Prop where
  types : s.indexStore.componentType.Wf
  vecs : ∀ g v, s.compStore.get? g = some v → v.Fresh
  stored : ∀ g v, s.compStore.get? g = some v → g < s.indexStore.componentType.compGroup
  declared : ∀ n g v, s.indexStore.componentType.typeNameGroupMap.get? n = some g →
    s.compStore.get? g = some v → ∀ c ∈ v.vec, c.compDef = (defs.get? n).getD ComponentDef.default
  attached : ∀ e comps id, s.indexStore.entity.entityCompMap.get? e = some comps → id ∈ comps →
    ∃ v, s.compStore.get? id.1 = some v ∧ id.2 ≤ v.lastId
  disjoint : ∀ e e' comps comps' id, s.indexStore.entity.entityCompMap.get? e = some comps →
    s.indexStore.entity.entityCompMap.get? e' = some comps' → id ∈ comps → id ∈ comps' → e = e'

namespace Stores
variable {defs : OrderedDict String ComponentDef}

/-- The identifier and the stores after a component is added to the group of its type. -/
theorem Building.addComponent_eq {s : Stores} (hs : s.Building defs) (n : String)
    (c : UserComponent) (hn : c.typeName = n) (hc : c.values = ∅) :
    ∃ v' : CompVec UserComponent, Stores.addComponent c s =
        (.ok ((s.indexStore.componentType.addComponentType n).1, v'.lastId),
          ⟨s.compStore.insert (s.indexStore.componentType.addComponentType n).1 v',
            ⟨(s.indexStore.componentType.addComponentType n).2, s.indexStore.entity⟩⟩) ∧ v'.Fresh ∧
      v'.lastId = ((s.compStore.get? (s.indexStore.componentType.addComponentType n).1).getD
        .new).lastId + 1 ∧
      v'.vec = ((s.compStore.get? (s.indexStore.componentType.addComponentType n).1).getD
        .new).vec ++ [c] := by
  have hfresh : ((s.compStore.get? (s.indexStore.componentType.addComponentType n).1).getD
      CompVec.new).Fresh := by
    cases h : s.compStore.get? (s.indexStore.componentType.addComponentType n).1 with
    | none => exact CompVec.fresh_new
    | some v => exact hs.vecs _ v h
  obtain ⟨v', hadd, hv', hlast, hvec⟩ := hfresh.add hc
  refine ⟨v', ?_, hv', hlast, hvec⟩
  simp only [Stores.addComponent, ComponentStore.addComponent, hn, hadd, Fallible.map_ok, hlast]

/-- Adding a component issues an identifier that no entity has. -/
theorem Building.addComponent {s : Stores} (hs : s.Building defs) (n : String) :
    ∃ id s', Stores.addComponent
        (UserComponent.new n ((defs.get? n).getD ComponentDef.default)) s = (.ok id, s') ∧
      s'.Building defs ∧ s'.indexStore.entity = s.indexStore.entity ∧
      (∃ v, s'.compStore.get? id.1 = some v ∧ id.2 ≤ v.lastId) ∧
      ∀ e comps, s.indexStore.entity.entityCompMap.get? e = some comps → id ∉ comps := by
  obtain ⟨v', hadd, hv', hlast, hvec⟩ := hs.addComponent_eq n
    (UserComponent.new n ((defs.get? n).getD ComponentDef.default)) rfl rfl
  set t := s.indexStore.componentType with ht
  set g := (t.addComponentType n).1 with hg
  refine ⟨_, _, hadd, ?_, rfl, ⟨v', by simp, le_rfl⟩, ?_⟩
  · refine ⟨hs.types.addComponentType n, fun g' v h => ?_, fun g' v h => ?_,
      fun n' g' v hn' h d hd => ?_, fun e comps id h hid => ?_, hs.disjoint⟩
    · rw [OrderedDict.get?_insert] at h
      split_ifs at h
      · cases h; exact hv'
      · exact hs.vecs g' v h
    · rw [OrderedDict.get?_insert] at h
      split_ifs at h with hg'
      · refine (hs.types.addComponentType n).groups n g' ?_
        rw [ComponentTypeIndex.get?_addComponentType, if_pos rfl, hg']
      · exact lt_of_lt_of_le (hs.stored g' v h) (t.compGroup_le n)
    · -- the components of a group other than the new one's are old, and so are those before it
      rw [ComponentTypeIndex.get?_addComponentType] at hn'
      rw [OrderedDict.get?_insert] at h
      split_ifs at hn' h with hnn hgg hgg
      · subst hnn hgg
        cases h
        rw [hvec] at hd
        rcases List.mem_append.mp hd with hd | hd
        · cases hget : s.compStore.get? g with
          | none => rw [hget] at hd; cases hd
          | some old =>
            rw [hget] at hd
            rcases t.addComponentType_fst n' with hold | hnew
            · exact hs.declared n' g old hold hget d hd
            · exact absurd (hs.stored g old hget) (by rw [hg, hnew]; exact lt_irrefl _)
        · rw [List.mem_singleton.mp hd]; rfl
      · cases hn'; exact absurd rfl hgg
      · subst hgg
        rcases t.addComponentType_fst n with hold | hnew
        · exact absurd (hs.types.distinct n' n g hn' hold) hnn
        · exact absurd (hs.types.groups n' g hn') (by rw [hg, hnew]; exact lt_irrefl _)
      · exact hs.declared n' g' v hn' h d hd
    · obtain ⟨v, hv, hle⟩ := hs.attached e comps id h hid
      by_cases hk : id.1 = g
      · refine ⟨v', by simp [hk], ?_⟩
        rw [hk] at hv
        rw [hlast, hv]
        exact Nat.le_succ_of_le hle
      · exact ⟨v, by simpa [OrderedDict.get?_insert, hk] using hv, hle⟩
  · intro e comps h hid
    obtain ⟨v, hv, hle⟩ := hs.attached e comps _ h hid
    simp only [hlast, hv, Option.getD_some] at hle
    omega

/-- Attaching a component that no entity has to an entity of the index. -/
theorem Building.attach {s : Stores} (hs : s.Building defs) {e : EntityId} {comps : ComponentSet}
    (he : s.indexStore.entity.entityCompMap.get? e = some comps) {id : CompStoreId}
    (hid : ∃ v, s.compStore.get? id.1 = some v ∧ id.2 ≤ v.lastId)
    (hnew : ∀ e' comps', s.indexStore.entity.entityCompMap.get? e' = some comps' → id ∉ comps') :
    ∃ s', onEntityIndex (EntityIndex.addComponent e id) s = (.ok (), s') ∧ s'.Building defs ∧
      s'.indexStore.entity.nextEntityId = s.indexStore.entity.nextEntityId ∧
      (∀ e', e' ∈ s'.indexStore.entity.entityCompMap.keys ↔
        e' ∈ s.indexStore.entity.entityCompMap.keys) := by
  refine ⟨⟨s.compStore, ⟨s.indexStore.componentType, { s.indexStore.entity with
    entityCompMap := s.indexStore.entity.entityCompMap.insert e (comps.insert id) }⟩⟩,
    ?_, ?_, rfl, fun e' => ?_⟩
  · simp only [onEntityIndex, EntityIndex.addComponent, he]
  · -- a component of the new set is the added one or an old one of `e`
    have hmem : ∀ e' comps' i, (s.indexStore.entity.entityCompMap.insert e
        (comps.insert id)).get? e' = some comps' → i ∈ comps' → (e' = e ∧ i = id) ∨
          ∃ old, s.indexStore.entity.entityCompMap.get? e' = some old ∧ i ∈ old := by
      intro e' comps' i h hi
      rw [OrderedDict.get?_insert] at h
      split_ifs at h with hee
      · cases h
        rcases List.mem_insert_iff.mp hi with rfl | hi
        · exact .inl ⟨hee, rfl⟩
        · exact .inr ⟨comps, by rw [hee]; exact he, hi⟩
      · exact .inr ⟨comps', h, hi⟩
    refine ⟨hs.types, hs.vecs, hs.stored, hs.declared, fun e' comps' i h hi => ?_,
      fun e₁ e₂ comps₁ comps₂ i h₁ h₂ hi₁ hi₂ => ?_⟩
    · rcases hmem e' comps' i h hi with ⟨-, rfl⟩ | ⟨old, ho, hi⟩
      · exact hid
      · exact hs.attached e' old i ho hi
    · rcases hmem e₁ comps₁ i h₁ hi₁ with ⟨rfl, rfl⟩ | ⟨old₁, ho₁, hi₁⟩ <;>
        rcases hmem e₂ comps₂ _ h₂ hi₂ with ⟨rfl, hi'⟩ | ⟨old₂, ho₂, hi₂⟩
      · rfl
      · exact absurd hi₂ (hnew e₂ old₂ ho₂)
      · exact absurd (hi' ▸ hi₁) (hnew e₁ old₁ ho₁)
      · exact hs.disjoint e₁ e₂ old₁ old₂ i ho₁ ho₂ hi₁ hi₂
  · rw [OrderedDict.mem_keys_insert]
    constructor
    · rintro (rfl | h)
      · exact OrderedDict.mem_keys_of_get? he
      · exact h
    · exact .inr

/-- What the steps of the constructor keep: no attribute is set, the counter stands at `next`
and the entities of `ids` are known. -/
def BuildingAt (defs : OrderedDict String ComponentDef) (next : EntityId) (ids : List EntityId)
    (s : Stores) : Prop :=
  s.Building defs ∧ s.indexStore.entity.nextEntityId = next ∧
    ∀ e ∈ ids, e ∈ s.indexStore.entity.entityCompMap.keys

theorem BuildingAt.createComponents {next : EntityId} {ids : List EntityId} {e : EntityId}
    (he : e ∈ ids) (names : List String)
    {s : Stores} (hs : s.BuildingAt defs next ids) :
    ∃ s', Fallible.forEach (createComponent defs e) names s = (.ok (), s') ∧
      s'.BuildingAt defs next ids := by
  induction names generalizing s with
  | nil => exact ⟨s, rfl, hs⟩
  | cons n names ih =>
    obtain ⟨hb, hnext, hids⟩ := hs
    obtain ⟨id, s₁, hadd, hb₁, hent, hv, hnew⟩ := hb.addComponent n
    obtain ⟨comps, hc⟩ : ∃ comps, s₁.indexStore.entity.entityCompMap.get? e = some comps := by
      rw [← Option.isSome_iff_exists, hent]
      exact OrderedDict.contains_iff.mpr (hids e he)
    obtain ⟨s₂, hatt, hb₂, hnext₂, hkeys⟩ := hb₁.attach hc hv (by rw [hent]; exact hnew)
    have hstep : createComponent defs e n s = (.ok (), s₂) := by
      rw [createComponent, Fallible.run_bind_of_ok hadd]
      exact hatt
    obtain ⟨s', hrest, hs'⟩ := ih (s := s₂) ⟨hb₂, by rw [hnext₂, hent, hnext], fun i hi => by
      rw [hkeys, hent]; exact hids i hi⟩
    exact ⟨s', by rw [Fallible.forEach, Fallible.run_bind_of_ok hstep, hrest], hs'⟩

end Stores

/-! ## Identifiers of entities -/

/-- The identifiers given to entities by a counter that skips zero. -/
def setEntityIdsFrom : EntityId → List EntityDef → List EntityDef
  | _, [] => []
  | next, entity :: entities =>
    if entity.id = UNSET_ENTITY_ID then
      let id := if next = 0 then 1 else next
      { entity with id := id } :: setEntityIdsFrom (id + 1) entities
    else entity :: setEntityIdsFrom next entities

namespace EntityIndex

theorem get?_emplace (map : OrderedDict EntityId ComponentSet) (id e : EntityId) :
    (emplace map id).get? e = if e = id ∧ map.get? id = none then some [] else map.get? e := by
  rw [emplace, OrderedDict.contains]
  cases h : map.get? id with
  | none => simp [OrderedDict.get?_insert]
  | some comps => simp

theorem mem_keys_emplace {map : OrderedDict EntityId ComponentSet} {id e : EntityId} :
    e ∈ (emplace map id).keys ↔ e = id ∨ e ∈ map.keys := by
  rw [emplace]
  split_ifs with h
  · rw [OrderedDict.contains_iff] at h
    constructor
    · exact .inr
    · rintro (rfl | h') <;> assumption
  · exact OrderedDict.mem_keys_insert

/-- Emplacing entities attaches no component. -/
theorem foldl_emplace_eq_nil (ids : List EntityId) {map : OrderedDict EntityId ComponentSet}
    (h : ∀ e comps, map.get? e = some comps → comps = []) {e : EntityId} {comps : ComponentSet}
    (he : (ids.foldl emplace map).get? e = some comps) : comps = [] := by
  induction ids generalizing map with
  | nil => exact h e comps he
  | cons id ids ih =>
    refine ih (fun e comps he => ?_) he
    rw [get?_emplace] at he
    split_ifs at he
    · cases he; rfl
    · exact h e comps he

end EntityIndex

namespace Stores

/-- Emplacing an entity attaches no component. -/
theorem Building.emplace {s : Stores} (hs : s.Building defs) (id next : EntityId) :
    (⟨s.compStore, ⟨s.indexStore.componentType,
      ⟨next, EntityIndex.emplace s.indexStore.entity.entityCompMap id⟩⟩⟩ :
      Stores).Building defs := by
  have hmem : ∀ e comps i, (EntityIndex.emplace s.indexStore.entity.entityCompMap id).get? e =
      some comps → i ∈ comps → s.indexStore.entity.entityCompMap.get? e = some comps := by
    intro e comps i h hi
    rw [EntityIndex.get?_emplace] at h
    split_ifs at h
    · cases h; cases hi
    · exact h
  exact ⟨hs.types, hs.vecs, hs.stored, hs.declared,
    fun e comps i h hi => hs.attached e comps i (hmem e comps i h hi) hi,
    fun e e' comps comps' i h h' hi hi' => hs.disjoint e e' comps comps' i
      (hmem e comps i h hi) (hmem e' comps' i h' hi') hi hi'⟩

theorem BuildingAt.addEntityId {next : EntityId} {ids : List EntityId} {s : Stores}
    (hs : s.BuildingAt defs next ids) : s.indexStore.entity.addEntityId.1 = next ∧
      (⟨s.compStore, ⟨s.indexStore.componentType, s.indexStore.entity.addEntityId.2⟩⟩ :
        Stores).BuildingAt defs (next + 1) (next :: ids) := by
  obtain ⟨hb, rfl, hids⟩ := hs
  refine ⟨rfl, hb.emplace _ _, rfl, fun e he => EntityIndex.mem_keys_emplace.mpr ?_⟩
  rcases List.mem_cons.mp he with rfl | he
  · exact .inl rfl
  · exact .inr (hids e he)

theorem BuildingAt.mono {next : EntityId} {ids ids' : List EntityId} (h : ∀ e ∈ ids', e ∈ ids)
    {s : Stores} (hs : s.BuildingAt defs next ids) : s.BuildingAt defs next ids' :=
  ⟨hs.1, hs.2.1, fun e he => hs.2.2 e (h e he)⟩

theorem BuildingAt.generateId {next : EntityId} {ids : List EntityId} {s : Stores}
    (hs : s.BuildingAt defs next ids) :
    s.indexStore.entity.generateId.1 = (if next = 0 then 1 else next) ∧
      (⟨s.compStore, ⟨s.indexStore.componentType, s.indexStore.entity.generateId.2⟩⟩ :
        Stores).BuildingAt defs ((if next = 0 then 1 else next) + 1)
          ((if next = 0 then 1 else next) :: ids) := by
  obtain ⟨h₁, hs₁⟩ := hs.addEntityId
  rw [EntityIndex.generateId_eq, hs.2.1]
  by_cases h0 : next = 0
  · subst h0
    simp only [if_true]
    obtain ⟨h₂, hs₂⟩ := hs₁.addEntityId
    refine ⟨h₂, hs₂.mono fun e he => ?_⟩
    rcases List.mem_cons.mp he with rfl | he
    · exact List.mem_cons_self
    · exact List.mem_cons_of_mem _ (List.mem_cons_of_mem _ he)
  · simp only [h0, if_false]
    exact ⟨h₁, hs₁⟩

/-- The identifier of an entity comes from the counter or is the configured one. -/
theorem BuildingAt.entityId {next : EntityId} {ids : List EntityId} {entity : EntityDef}
    (hset : entity.id ≠ UNSET_ENTITY_ID → entity.id ∈ ids) {s : Stores}
    (hs : s.BuildingAt defs next ids) :
    ∃ id next' s', Stores.entityId entity s = (.ok id, s') ∧
      s'.BuildingAt defs next' (id :: ids) ∧
      ∀ entities, setEntityIdsFrom next (entity :: entities) =
        { entity with id := id } :: setEntityIdsFrom next' entities := by
  by_cases h : entity.id = UNSET_ENTITY_ID
  · obtain ⟨h₁, hs₁⟩ := hs.generateId
    refine ⟨_, _, _, ?_, hs₁, fun entities => by rw [setEntityIdsFrom, if_pos h]⟩
    simp only [Stores.entityId, if_pos h, onEntityIndex, h₁]
  · refine ⟨entity.id, next, s, by rw [Stores.entityId, if_neg h]; rfl, hs.mono fun e he => ?_,
      fun entities => by rw [setEntityIdsFrom, if_neg h]⟩
    rcases List.mem_cons.mp he with rfl | he
    · exact hset h
    · exact he

theorem BuildingAt.createEntities {next : EntityId} {ids : List EntityId}
    (entities : List EntityDef)
    (hset : ∀ e ∈ entities, e.id ≠ UNSET_ENTITY_ID → e.id ∈ ids) {s : Stores}
    (hs : s.BuildingAt defs next ids) :
    ∃ s', Fallible.mapEach (createEntity defs) entities s =
      (.ok (setEntityIdsFrom next entities), s') ∧ s'.Building defs := by
  induction entities generalizing s next ids with
  | nil => exact ⟨s, rfl, hs.1⟩
  | cons entity entities ih =>
    have hset' : ∀ e ∈ entities, e.id ≠ UNSET_ENTITY_ID → e.id ∈ ids :=
      fun e he => hset e (List.mem_cons_of_mem _ he)
    obtain ⟨id, next', s₁, hid, hs₁, heq⟩ := hs.entityId (hset entity List.mem_cons_self)
    obtain ⟨s₂, hcomps, hs₂⟩ := hs₁.createComponents List.mem_cons_self entity.components
    have hstep : createEntity defs entity s = (.ok { entity with id := id }, s₂) := by
      rw [createEntity, Fallible.run_bind_of_ok hid, Fallible.run_bind_of_ok hcomps]
      rfl
    obtain ⟨s', hrest, hs'⟩ := ih hset' (hs₂.mono fun e he => List.mem_cons_of_mem _ he)
    refine ⟨s', ?_, hs'⟩
    rw [Fallible.mapEach, Fallible.run_bind_of_ok hstep, Fallible.run_bind_of_ok hrest, heq]
    rfl

/-- No entity has a component before the first one is created. -/
theorem initialStores_entity {entities : List EntityDef} {e : EntityId} {comps : ComponentSet}
    (h : (initialStores entities).indexStore.entity.entityCompMap.get? e = some comps) :
    comps = [] :=
  EntityIndex.foldl_emplace_eq_nil _ (fun e comps h => by cases h) h

/-- The stores before any entity is created know the configured entities. -/
theorem initialStores_building (entities : List EntityDef) :
    (initialStores entities).BuildingAt defs (EntityIndex.maxId (configuredIds entities) + 1)
      (configuredIds entities) := by
  have hkeys : ∀ (ids : List EntityId) (map : OrderedDict EntityId ComponentSet) e,
      e ∈ ids ∨ e ∈ map.keys → e ∈ (ids.foldl EntityIndex.emplace map).keys := by
    intro ids
    induction ids with
    | nil => intro map e h; simpa using h
    | cons id ids ih =>
      intro map e h
      refine ih _ e ?_
      rw [EntityIndex.mem_keys_emplace]
      rcases h with h | h
      · rcases List.mem_cons.mp h with rfl | h
        · exact .inr (.inl rfl)
        · exact .inl h
      · exact .inr (.inr h)
  have hempty : ∀ e comps, (initialStores entities).indexStore.entity.entityCompMap.get? e =
      some comps → comps = [] :=
    fun e comps => initialStores_entity
  refine ⟨⟨⟨fun n g h => (by cases h), fun n n' g h => (by cases h)⟩, fun g v h => (by cases h),
    fun g v h => (by cases h), fun n g v h => (by cases h), fun e comps id h hid => ?_,
    fun e e' comps comps' id h h' hid => ?_⟩, rfl,
    fun e he => hkeys _ _ e (.inl he)⟩
  · rw [hempty e comps h] at hid; cases hid
  · rw [hempty e comps h] at hid; cases hid

theorem Building.wf {s : Stores} (hs : s.Building defs) : s.Wf :=
  ⟨⟨hs.types.distinct, hs.disjoint⟩, fun g v h => (hs.vecs g v h).slotsDistinct⟩

/-- While a simulation is built no attribute has a value. -/
theorem Building.value_eq_none {s : Stores} (hs : s.Building defs) (ref : AttributeRef) :
    s.view.value ref = none := by
  cases hc : s.component ref.component ref.entityId with
  | error e => simp only [view, hc]
  | ok c =>
    obtain ⟨g, v, -, hg, hmem⟩ := component_mem hc
    simp only [view, hc, (hs.vecs g v hg).blank c hmem, UserComponent.read_empty]

/-- A component has the definition of its name. -/
theorem Building.layout_eq {s : Stores} (hs : s.Building defs) {n : String} {e : EntityId}
    {cd : ComponentDef} (h : s.view.layout n e = .ok cd) :
    cd = (defs.get? n).getD ComponentDef.default := by
  obtain ⟨c, hc, rfl⟩ := Fallible.map_eq_ok_iff.mp h
  obtain ⟨g, v, hn, hg, hmem⟩ := component_mem hc
  exact hs.declared n g v hn hg c hmem

end Stores

namespace SimulationDef

/-- The definition with all identifiers set. -/
def withIds (d : SimulationDef) : SimulationDef :=
  { d with
    entities := setEntityIdsFrom (EntityIndex.maxId (configuredIds d.entities) + 1) d.entities
    systems := setSystemIds (maxSystemId d.systems) d.systems }

/-- The definition that components of a name are created with. -/
def componentDef (d : SimulationDef) (name : String) : ComponentDef :=
  ((compDefMap d.components).get? name).getD ComponentDef.default

end SimulationDef

/-- **The constructor always succeeds**, with consistent stores, components of the declared
definitions, and no value. -/
theorem construct_spec (d : SimulationDef) :
    ∃ stores, Stores.construct d = .ok (d.withIds, stores) ∧
    stores.Wf ∧ (∀ ref, stores.view.value ref = none) ∧
    ∀ n e cd, stores.view.layout n e = .ok cd → cd = d.componentDef n := by
  have hinit : (initialStores d.entities).BuildingAt (compDefMap d.components) _ _ :=
    Stores.initialStores_building d.entities
  obtain ⟨stores, h, hs⟩ := hinit.createEntities d.entities fun e he hid => by
      simp only [configuredIds, List.mem_reverse, List.mem_filter, List.mem_map,
        decide_eq_true_eq]
      exact ⟨⟨e, he, rfl⟩, hid⟩
  exact ⟨stores, by rw [Stores.construct, h, SimulationDef.withIds], hs.wf, hs.value_eq_none,
    fun n e cd => hs.layout_eq⟩

end Bentobox
