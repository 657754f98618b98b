import Bentobox.Engine.Atomicity
import Bentobox.Engine.Resolution

/-!
# Lookups find what was created

`constructRecorded` is the constructor of a simulation with a record of the
component that it creates for each entity and name. When no two entities have the
same identifier and no entity lists a name twice, `getComponent` finds exactly the
recorded components, in the stores that are constructed and in all stores that
graphs and writes lead to.
-/
namespace Bentobox

open AttributeStore

/-- A component that was created: the entity and the name it is for, and its identifier. -/
abbrev Creation := (EntityId × String) × CompStoreId

namespace Stores

/-! ## The constructor with a record -/

/-- `createComponent`, recording the component. -/
def createComponentRecorded (defs : OrderedDict String ComponentDef) (entityId : EntityId)
    (compName : String) : Fallible Stores Fault Creation := do
  let compStoreId ← addComponent
    (UserComponent.new compName ((defs.get? compName).getD ComponentDef.default))
  onEntityIndex (EntityIndex.addComponent entityId compStoreId)
  pure ((entityId, compName), compStoreId)

/-- `createEntity`, recording the components. -/
def createEntityRecorded (defs : OrderedDict String ComponentDef) (entity : EntityDef) :
    Fallible Stores Fault (List Creation) := do
  let id ← entityId entity
  Fallible.mapEach (createComponentRecorded defs id) entity.components

/-- `construct`, recording the components. -/
def constructRecorded (simDef : SimulationDef) : Except Fault (List Creation × Stores) :=
  match Fallible.mapEach (createEntityRecorded (compDefMap simDef.components)) simDef.entities
      (initialStores simDef.entities) with
  | (.ok created, stores) => .ok (created.flatten, stores)
  | (.error e, _) => .error e

/-! ## What the record says about the stores -/

/-- The components in the stores are those of the record. -/
structure Recorded (created : List Creation) (s : Stores) : Prop where
  group : ∀ r ∈ created, s.indexStore.componentType.typeNameGroupMap.get? r.1.2 = some r.2.1
  stored : ∀ r ∈ created, 1 ≤ r.2.2 ∧ ∃ v, s.compStore.get? r.2.1 = some v ∧ r.2.2 ≤ v.lastId
  attached : ∀ e comps, s.indexStore.entity.entityCompMap.get? e = some comps →
    comps.Nodup ∧ ∀ id, id ∈ comps ↔ ∃ n, ((e, n), id) ∈ created
  known : ∀ r ∈ created, r.1.1 ∈ s.indexStore.entity.entityCompMap.keys
  active : ∀ g v, s.compStore.get? g = some v → ∀ c ∈ v.vec, c.isActive = true

variable {defs : OrderedDict String ComponentDef} {created : List Creation}

end Stores

/-- As many identifiers as were issued are in use. -/
theorem CompVec.Fresh.size {v : CompVec UserComponent} (hv : v.Fresh) : v.size = v.lastId := by
  have hperm : v.idToIndex.keys.Perm (List.range' 1 v.lastId) := by
    refine (List.perm_ext_iff_of_nodup v.idToIndex.nodup_keys List.nodup_range').mpr fun i => ?_
    rw [← OrderedDict.contains_iff, OrderedDict.contains, Option.isSome_iff_exists,
      List.mem_range'_1]
    simp only [hv.ids]
    constructor
    · rintro ⟨k, rfl, hk⟩
      omega
    · intro hi
      exact ⟨i - 1, by omega, by omega⟩
  rw [CompVec.size, ← OrderedDict.length_keys, hperm.length_eq, List.length_range']

namespace Stores
variable {defs : OrderedDict String ComponentDef} {created : List Creation} {s : Stores}

/-- **A recorded component is found** by the entity and the name it was created for. -/
theorem Recorded.findComponent_of_mem (hr : Recorded created s) (hs : s.Building defs)
    (hnodup : (created.map Prod.fst).Nodup) {e : EntityId} {n : String} {id : CompStoreId}
    (hmem : ((e, n), id) ∈ created) : s.findComponent n e = .ok id := by
  have hgroup := hr.group _ hmem
  obtain ⟨hpos, v, hv, hle⟩ := hr.stored _ hmem
  obtain ⟨comps, hcomps⟩ : ∃ comps, s.indexStore.entity.entityCompMap.get? e = some comps := by
    rw [← Option.isSome_iff_exists]
    exact OrderedDict.contains_iff.mpr (hr.known _ hmem)
  obtain ⟨hcnodup, hcmem⟩ := hr.attached e comps hcomps
  -- the components of the entity in the group of the name are those created for the pair
  have hfilter : comps.filter (fun comp => comp ∈
      s.compStore.asCompSet.filter fun comp => comp.1 = id.1) = [id] := by
    refine List.perm_singleton.mp ((List.perm_ext_iff_of_nodup (hcnodup.filter _)
      (List.nodup_singleton id)).mpr fun id' => ?_)
    simp only [List.mem_filter, decide_eq_true_eq, List.mem_singleton, hcmem]
    constructor
    · rintro ⟨⟨n', hmem'⟩, -, heq⟩
      have hgroup' := hr.group _ hmem'
      rw [heq] at hgroup'
      obtain rfl : n' = n := hs.types.distinct n' n _ hgroup' hgroup
      exact congrArg Prod.snd (List.inj_on_of_nodup_map hnodup hmem' hmem rfl)
    · rintro rfl
      refine ⟨⟨n, hmem⟩, mem_asCompSet.mpr ⟨v, hv, hpos, ?_⟩, rfl⟩
      rwa [(hs.vecs _ v hv).size]
  simp only [findComponent, ComponentTypeIndex.filterCompType, hgroup, EntityIndex.filterEntityId,
    hcomps, Fallible.ok_bind, hfilter]

/-- What is found was recorded. -/
theorem Recorded.mem_of_findComponent (hr : Recorded created s) (hs : s.Building defs)
    {e : EntityId} {n : String} {id : CompStoreId} (h : s.findComponent n e = .ok id) :
    ((e, n), id) ∈ created := by
  obtain ⟨hn, comps, hcomps, hid⟩ := findComponent_eq_ok h
  obtain ⟨n', hmem⟩ := ((hr.attached e comps hcomps).2 id).mp hid
  have hgroup := hr.group _ hmem
  rwa [hs.types.distinct n n' _ hn hgroup]

/-- A recorded component sits in the slot of its identifier. -/
theorem Recorded.slot_of_mem (hr : Recorded created s) (hs : s.Building defs) {r : Creation}
    (hmem : r ∈ created) : s.slot r.2 = .ok (r.2.1, r.2.2 - 1) := by
  obtain ⟨hpos, v, hv, hle⟩ := hr.stored r hmem
  have hfresh := hs.vecs _ v hv
  have hid : v.idToIndex.get? r.2.2 = some (r.2.2 - 1) := (hfresh.ids _ _).mpr ⟨by omega, hle⟩
  have hlt : r.2.2 - 1 < v.vec.length := by rw [hfresh.length]; omega
  have hfind : v.find r.2.2 = .ok (r.2.2 - 1, v.vec[r.2.2 - 1]) :=
    CompVec.find_eq_ok_iff.mpr ⟨hid, List.getElem?_eq_getElem hlt,
      hr.active _ v hv _ (List.getElem_mem hlt)⟩
  simp only [slot, hv, hfind, Fallible.map_ok]

/-! ## The constructor keeps the record -/

/-- The stores before any entity is created have an empty record. -/
theorem recorded_initialStores (entities : List EntityDef) :
    Recorded [] (initialStores entities) where
  group r h := by cases h
  stored r h := by cases h
  attached e comps h := by
    rw [initialStores_entity h]
    simp
  known r h := by cases h
  active g v h := by cases h

/-- Emplacing an entity changes nothing of the record. -/
theorem Recorded.emplace (hr : Recorded created s) (id next : EntityId) :
    Recorded created ⟨s.compStore, ⟨s.indexStore.componentType,
      ⟨next, EntityIndex.emplace s.indexStore.entity.entityCompMap id⟩⟩⟩ := by
  refine ⟨hr.group, hr.stored, fun e comps h => ?_,
    fun r h => EntityIndex.mem_keys_emplace.mpr (.inr (hr.known r h)), hr.active⟩
  rw [EntityIndex.get?_emplace] at h
  split_ifs at h with hid
  · -- the entity is new, so nothing was created for it
    obtain ⟨rfl, hnone⟩ := hid
    cases h
    refine ⟨List.nodup_nil, fun i => iff_of_false (List.not_mem_nil) ?_⟩
    rintro ⟨n, hmem⟩
    exact OrderedDict.get?_eq_none_iff.mp hnone (hr.known _ hmem)
  · exact hr.attached e comps h

/-- Creating a component adds it to the record. -/
theorem Recorded.createComponent (hr : Recorded created s) {next : EntityId} {ids : List EntityId}
    (hs : s.BuildingAt defs next ids) {e : EntityId} (he : e ∈ ids) (n : String) :
    ∃ id s', createComponentRecorded defs e n s = (.ok ((e, n), id), s') ∧
      Stores.createComponent defs e n s = (.ok (), s') ∧ s'.BuildingAt defs next ids ∧
      Recorded (created ++ [((e, n), id)]) s' := by
  obtain ⟨hb, hnext, hids⟩ := hs
  obtain ⟨id, s₁, hadd, hb₁, hent, hv, hnew⟩ := hb.addComponent n
  obtain ⟨v', hadd', -, hlast, hvec⟩ := hb.addComponent_eq n
    (UserComponent.new n ((defs.get? n).getD ComponentDef.default)) rfl rfl
  rw [hadd] at hadd'
  cases hadd'
  obtain ⟨comps, hc⟩ : ∃ comps, s.indexStore.entity.entityCompMap.get? e = some comps := by
    rw [← Option.isSome_iff_exists]
    exact OrderedDict.contains_iff.mpr (hids e he)
  obtain ⟨s₂, hatt, hb₂, hnext₂, hkeys⟩ := hb₁.attach hc hv hnew
  have hatt' := hatt
  simp only [onEntityIndex, EntityIndex.addComponent, hc] at hatt'
  cases hatt'
  refine ⟨((s.indexStore.componentType.addComponentType n).1, v'.lastId), _, ?_, ?_,
    ⟨hb₂, hnext₂.trans hnext, fun i hi => (hkeys i).mpr (hids i hi)⟩, ?_⟩
  · rw [createComponentRecorded, Fallible.run_bind_of_ok hadd, Fallible.run_bind_of_ok hatt]
    rfl
  · rw [Stores.createComponent, Fallible.run_bind_of_ok hadd]
    exact hatt
  · obtain ⟨hcnodup, hcmem⟩ := hr.attached e comps hc
    refine ⟨fun r hmem => ?_, fun r hmem => ?_, fun e' comps' h => ?_, fun r hmem => ?_,
      fun g v h c hmem => ?_⟩
    · rw [ComponentTypeIndex.get?_addComponentType]
      rcases List.mem_append.mp hmem with hmem | hmem
      · have hgroup := hr.group r hmem
        split_ifs with hrn
        · rw [hrn] at hgroup
          simp only [ComponentTypeIndex.addComponentType, hgroup]
        · exact hgroup
      · rw [List.mem_singleton.mp hmem, if_pos rfl]
    · rcases List.mem_append.mp hmem with hmem | hmem
      · obtain ⟨hpos, v, hget, hle⟩ := hr.stored r hmem
        refine ⟨hpos, ?_⟩
        rw [OrderedDict.get?_insert]
        split_ifs with hg
        · rw [hg] at hget
          refine ⟨v', rfl, ?_⟩
          rw [hlast, hget]
          exact Nat.le_succ_of_le hle
        · exact ⟨v, hget, hle⟩
      · rw [List.mem_singleton.mp hmem]
        refine ⟨?_, v', OrderedDict.get?_insert_self _ _ _, le_rfl⟩
        change 1 ≤ v'.lastId
        omega
    · rw [OrderedDict.get?_insert] at h
      split_ifs at h with hee
      · subst hee
        cases h
        refine ⟨hcnodup.insert, fun i => ?_⟩
        simp only [List.mem_insert_iff, hcmem, List.mem_append, List.mem_singleton, Prod.mk.injEq,
          true_and]
        constructor
        · rintro (rfl | ⟨n', hmem⟩)
          · exact ⟨n, .inr ⟨rfl, rfl⟩⟩
          · exact ⟨n', .inl hmem⟩
        · rintro ⟨n', hmem | ⟨-, rfl⟩⟩
          · exact .inr ⟨n', hmem⟩
          · exact .inl rfl
      · obtain ⟨hcnodup', hcmem'⟩ := hr.attached e' comps' h
        refine ⟨hcnodup', fun i => ?_⟩
        simp only [hcmem', List.mem_append, List.mem_singleton, Prod.mk.injEq, hee, false_and,
          or_false]
    · rw [OrderedDict.mem_keys_insert]
      rcases List.mem_append.mp hmem with hmem | hmem
      · exact .inr (hr.known r hmem)
      · exact .inl (by rw [List.mem_singleton.mp hmem])
    · rw [OrderedDict.get?_insert] at h
      split_ifs at h with hg
      · cases h
        rw [hvec] at hmem
        rcases List.mem_append.mp hmem with hmem | hmem
        · cases hget : s.compStore.get? (s.indexStore.componentType.addComponentType n).1 with
          | none => rw [hget] at hmem; cases hmem
          | some old => rw [hget] at hmem; exact hr.active _ old hget c hmem
        · rw [List.mem_singleton.mp hmem]
          rfl
      · exact hr.active g v h c hmem

/-- Creating the components of an entity records one for each of its names. -/
theorem Recorded.createComponents {next : EntityId} {ids : List EntityId} {e : EntityId}
    (he : e ∈ ids) (names : List String) (hr : Recorded created s)
    (hs : s.BuildingAt defs next ids) :
    ∃ cs s', Fallible.mapEach (createComponentRecorded defs e) names s = (.ok cs, s') ∧
      Fallible.forEach (Stores.createComponent defs e) names s = (.ok (), s') ∧
      s'.BuildingAt defs next ids ∧ Recorded (created ++ cs) s' ∧
      cs.map Prod.fst = names.map fun n => (e, n) := by
  induction names generalizing s created with
  | nil => exact ⟨[], s, rfl, rfl, hs, by simpa using hr, rfl⟩
  | cons n names ih =>
    obtain ⟨id, s₁, hrec, hcreate, hs₁, hr₁⟩ := hr.createComponent hs he n
    obtain ⟨cs, s', hrecs, hcreates, hs', hr', hkeys⟩ := ih hr₁ hs₁
    refine ⟨((e, n), id) :: cs, s', ?_, ?_, hs', by simpa using hr', by simp [hkeys]⟩
    · rw [Fallible.mapEach, Fallible.run_bind_of_ok hrec, Fallible.run_bind_of_ok hrecs]
      rfl
    · rw [Fallible.forEach, Fallible.run_bind_of_ok hcreate, hcreates]

/-- The pairs of an entity and a name that a definition lists. -/
def listedPairs (entities : List EntityDef) : List (EntityId × String) :=
  entities.flatMap fun entity => entity.components.map fun n => (entity.id, n)

/-- Numbering an entity changes nothing of the record. -/
theorem Recorded.entityId {entity : EntityDef}
    (hr : Recorded created s) {id : EntityId} {s' : Stores}
    (h : Stores.entityId entity s = (.ok id, s')) : Recorded created s' := by
  rw [Stores.entityId] at h
  split_ifs at h
  · simp only [onEntityIndex, EntityIndex.generateId_eq] at h
    split_ifs at h
    · cases h
      exact (hr.emplace _ _).emplace _ _
    · cases h
      exact hr.emplace _ _
  · cases h
    exact hr

/-- **The record of the constructor** has the pairs that the numbered definition lists. -/
theorem Recorded.createEntities {next : EntityId} {ids : List EntityId} (entities : List EntityDef)
    (hset : ∀ e ∈ entities, e.id ≠ UNSET_ENTITY_ID → e.id ∈ ids) (hr : Recorded created s)
    (hs : s.BuildingAt defs next ids) :
    ∃ cs s', Fallible.mapEach (createEntityRecorded defs) entities s = (.ok cs, s') ∧
      Fallible.mapEach (createEntity defs) entities s =
        (.ok (setEntityIdsFrom next entities), s') ∧ s'.Building defs ∧
      Recorded (created ++ cs.flatten) s' ∧
      cs.flatten.map Prod.fst = listedPairs (setEntityIdsFrom next entities) := by
  induction entities generalizing s created next ids with
  | nil => exact ⟨[], s, rfl, rfl, hs.1, by simpa using hr, rfl⟩
  | cons entity entities ih =>
    have hset' : ∀ e ∈ entities, e.id ≠ UNSET_ENTITY_ID → e.id ∈ ids :=
      fun e he => hset e (List.mem_cons_of_mem _ he)
    obtain ⟨id, next', s₁, hid, hs₁, heq⟩ := hs.entityId (hset entity List.mem_cons_self)
    obtain ⟨cs, s₂, hrec, hcreate, hs₂, hr₂, hkeys⟩ :=
      (hr.entityId hid).createComponents List.mem_cons_self entity.components hs₁
    obtain ⟨css, s', hrecs, hcreates, hs', hr', hkeys'⟩ :=
      ih hset' hr₂ (hs₂.mono fun e he => List.mem_cons_of_mem _ he)
    refine ⟨cs :: css, s', ?_, ?_, hs', by simpa using hr', ?_⟩
    · have hstep : createEntityRecorded defs entity s = (.ok cs, s₂) := by
        rw [createEntityRecorded, Fallible.run_bind_of_ok hid, hrec]
      rw [Fallible.mapEach, Fallible.run_bind_of_ok hstep, Fallible.run_bind_of_ok hrecs]
      rfl
    · have hstep : createEntity defs entity s = (.ok { entity with id := id }, s₂) := by
        rw [createEntity, Fallible.run_bind_of_ok hid, Fallible.run_bind_of_ok hcreate]
        rfl
      rw [Fallible.mapEach, Fallible.run_bind_of_ok hstep, Fallible.run_bind_of_ok hcreates, heq]
      rfl
    · rw [heq, List.flatten_cons, List.map_append, hkeys, hkeys']
      rfl

/-- The recording constructor builds the same stores, with a record of the listed pairs. -/
theorem constructRecorded_spec (d : SimulationDef) : ∃ created stores,
    constructRecorded d = .ok (created, stores) ∧ construct d = .ok (d.withIds, stores) ∧
      stores.Building (compDefMap d.components) ∧ Recorded created stores ∧
      created.map Prod.fst = listedPairs d.withIds.entities := by
  have hinit : (initialStores d.entities).BuildingAt (compDefMap d.components) _ _ :=
    initialStores_building d.entities
  obtain ⟨cs, stores, hrec, hcreate, hs, hr, hkeys⟩ :=
    (recorded_initialStores d.entities).createEntities d.entities
      (fun e he hid => by
        simp only [configuredIds, List.mem_reverse, List.mem_filter, List.mem_map,
          decide_eq_true_eq]
        exact ⟨⟨e, he, rfl⟩, hid⟩) hinit
  exact ⟨cs.flatten, stores, by rw [constructRecorded, hrec],
    by rw [construct, hcreate, SimulationDef.withIds], hs, hr, hkeys⟩

/-! ## Every state of a simulation -/

/-- The stores that graphs, reads and writes lead to from `s₀`, whether they succeed or fail. -/
inductive Reaches (F : FloatOps) (s₀ : Stores) : Stores → Prop
  | refl : Reaches F s₀ s₀
  | runGraph {s : Stores} (graph : Graph) (gen : ℕ) (h : Reaches F s₀ s) :
    Reaches F s₀ (Bentobox.runGraph F graph ⟨s, gen⟩).2.store
  | retrieve {s : Stores} (ref : AttributeRef) (h : Reaches F s₀ s) :
    Reaches F s₀ (AttributeStore.retrieve ref s).2
  | assign {s : Stores} (ref : AttributeRef) (v : Value) (h : Reaches F s₀ s) :
    Reaches F s₀ (AttributeStore.assign F ref v s).2

theorem Reaches.resolves {F : FloatOps} {s₀ : Stores} (hwf : s₀.Wf) (h : Reaches F s₀ s) :
    s₀.Resolves s := by
  induction h with
  | refl => exact .refl hwf
  | runGraph graph gen _ ih =>
    exact (runGraph_refines F (resolves_refines s₀) graph).keeps ⟨_, gen⟩ ih
  | retrieve ref _ ih => exact ((resolves_refines s₀).retrieve ref).keeps _ ih
  | assign ref v _ ih => exact ((resolves_refines s₀).assign F ref v).keeps _ ih

/-- The listed pairs are distinct when the identifiers are and no entity lists a name twice. -/
theorem nodup_listedPairs {entities : List EntityDef} (hids : (entities.map EntityDef.id).Nodup)
    (hnames : ∀ e ∈ entities, e.components.Nodup) : (listedPairs entities).Nodup := by
  refine List.nodup_flatMap.mpr ⟨fun e he => ?_, ?_⟩
  · exact (hnames e he).map fun n n' h => (Prod.mk.inj h).2
  · refine (List.pairwise_map.mp hids).imp fun hne => ?_
    refine List.disjoint_left.mpr fun p hp hp' => ?_
    obtain ⟨n, -, rfl⟩ := List.mem_map.mp hp
    obtain ⟨n', -, heq⟩ := List.mem_map.mp hp'
    exact hne (Prod.mk.inj heq).1.symm

/-- Two references to the same object are the same. -/
theorem location_injective (hs : s.Wf) {n n' : String} {e e' : EntityId} {l : ℕ × ℕ}
    (h : s.location n e = .ok l) (h' : s.location n' e' = .ok l) : n = n' ∧ e = e' := by
  obtain ⟨id, hid, hslot⟩ := Fallible.result_bind_eq_ok_iff.mp h
  obtain ⟨id', hid', hslot'⟩ := Fallible.result_bind_eq_ok_iff.mp h'
  have heq : id = id' := by
    rw [slot] at hslot hslot'
    cases hv : s.compStore.get? id.1 with
    | none => simp only [hv] at hslot; cases hslot
    | some v =>
      cases hv' : s.compStore.get? id'.1 with
      | none => simp only [hv'] at hslot'; cases hslot'
      | some v' =>
        simp only [hv] at hslot
        simp only [hv'] at hslot'
        obtain ⟨p, hp, rfl⟩ := Fallible.map_eq_ok_iff.mp hslot
        obtain ⟨p', hp', heq⟩ := Fallible.map_eq_ok_iff.mp hslot'
        obtain ⟨hgroup, hindex⟩ := Prod.mk.inj heq
        rw [hgroup, hv] at hv'
        cases hv'
        -- in one vector, different identifiers have different slots
        refine Prod.ext hgroup.symm (hs.slots _ v hv _ _ p.1 (CompVec.find_eq_ok_iff.mp hp).1 ?_)
        rw [← hindex]
        exact (CompVec.find_eq_ok_iff.mp hp').1
  subst heq
  exact findComponent_injective hs.index hid hid'

/-- The component is worked on where it is located. -/
theorem worksAt_of_location {n : String} {e : EntityId} {l : ℕ × ℕ}
    (h : s.location n e = .ok l) : s.WorksAt n e l := by
  obtain ⟨id, hid, hslot⟩ := Fallible.result_bind_eq_ok_iff.mp h
  rw [slot] at hslot
  cases hv : s.compStore.get? id.1 with
  | none => rw [hv] at hslot; cases hslot
  | some vec =>
    rw [hv] at hslot
    obtain ⟨⟨index, comp⟩, hfind, rfl⟩ := Fallible.map_eq_ok_iff.mp hslot
    refine ⟨vec, comp, hv, (CompVec.find_eq_ok_iff.mp hfind).2.1, fun α m => ?_⟩
    simp only [getComponent, hid, hv, CompVec.at, hfind]

/-- A lookup that finds nothing throws and changes nothing. -/
theorem getComponent_of_findComponent_error {α : Type} {n : String} {e : EntityId} {x : Fault}
    (h : s.findComponent n e = .error x) (m : Fallible UserComponent Fault α) :
    ∃ ex, getComponent n e m s = (.error (.exception ex), s) := by
  cases x with
  | exception ex => exact ⟨ex, by simp only [getComponent, h]⟩
  | undefined =>
    exact absurd (by rw [component, h, Fallible.error_bind]) (component_ne_undefined s n e)

theorem components_setEntityIdsFrom (next : EntityId) (entities : List EntityDef) :
    (setEntityIdsFrom next entities).map EntityDef.components =
      entities.map EntityDef.components := by
  induction entities generalizing next with
  | nil => rfl
  | cons entity entities ih =>
    rw [setEntityIdsFrom]
    split_ifs
    all_goals simp [ih]

/-- **Component lookup is exact and unaliased.** When the entities of a definition get distinct
identifiers and list no name twice, then in every state of the simulation the lookup of a listed
pair finds the one component that was created for it and works on that, the lookup of any other name
of an entity throws, and no two pairs lead to the same object. -/
theorem getComponent_exact (F : FloatOps) {d : SimulationDef}
    (hids : (d.withIds.entities.map EntityDef.id).Nodup)
    (hnames : ∀ e ∈ d.entities, e.components.Nodup) : ∃ created stores,
      constructRecorded d = .ok (created, stores) ∧ construct d = .ok (d.withIds, stores) ∧
      ∀ s, Reaches F stores s →
        (∀ e ∈ d.withIds.entities, ∀ c,
          (c ∈ e.components → ∃ id, created.filter (fun r => r.1 = (e.id, c)) = [((e.id, c), id)] ∧
            s.findComponent c e.id = .ok id ∧ s.location c e.id = .ok (id.1, id.2 - 1) ∧
            s.WorksAt c e.id (id.1, id.2 - 1)) ∧
          (c ∉ e.components → ∀ (α : Type) (m : Fallible UserComponent Fault α),
            ∃ x, getComponent c e.id m s = (.error (.exception x), s))) ∧
        ∀ c e c' e' l, s.location c e = .ok l → s.location c' e' = .ok l → c = c' ∧ e = e' := by
  obtain ⟨created, stores, hrec, hcon, hs, hr, hkeys⟩ := constructRecorded_spec d
  refine ⟨created, stores, hrec, hcon, fun s hreach => ?_⟩
  have hres := hreach.resolves hs.wf
  have hnames' : ∀ e ∈ d.withIds.entities, e.components.Nodup := by
    intro e he
    have hmem : e.components ∈ d.withIds.entities.map EntityDef.components :=
      List.mem_map_of_mem he
    rw [SimulationDef.withIds, components_setEntityIdsFrom] at hmem
    obtain ⟨e', he', heq⟩ := List.mem_map.mp hmem
    rw [← heq]
    exact hnames e' he'
  have hnodup : (created.map Prod.fst).Nodup := by
    rw [hkeys]
    exact nodup_listedPairs hids hnames'
  refine ⟨fun e he c => ⟨fun hc => ?_, fun hc α m => ?_⟩,
    fun c e c' e' l => location_injective hres.wf⟩
  · have hpair : (e.id, c) ∈ created.map Prod.fst := by
      rw [hkeys]
      exact List.mem_flatMap.mpr ⟨e, he, List.mem_map.mpr ⟨c, hc, rfl⟩⟩
    obtain ⟨⟨p, id⟩, hmem, rfl⟩ := List.mem_map.mp hpair
    have hfind := hr.findComponent_of_mem hs hnodup hmem
    have hloc : s.location c e.id = .ok (id.1, id.2 - 1) := by
      rw [hres.location, location, hfind, Fallible.ok_bind]
      exact hr.slot_of_mem hs hmem
    refine ⟨id, ?_, (hres.find _ _).trans hfind, hloc, worksAt_of_location hloc⟩
    · refine List.perm_singleton.mp ((List.perm_ext_iff_of_nodup
        ((List.Nodup.of_map _ hnodup).filter _) (List.nodup_singleton _)).mpr fun r => ?_)
      simp only [List.mem_filter, decide_eq_true_eq, List.mem_singleton]
      constructor
      · rintro ⟨hr', heq⟩
        exact List.inj_on_of_nodup_map hnodup hr' hmem heq
      · rintro rfl
        exact ⟨hmem, rfl⟩
  · cases hfind : stores.findComponent c e.id with
    | error x => exact getComponent_of_findComponent_error ((hres.find _ _).trans hfind) m
    | ok id =>
      -- what is found was recorded for an entity with this identifier, which is `e`
      exfalso
      have hpair : (e.id, c) ∈ created.map Prod.fst :=
        List.mem_map_of_mem (hr.mem_of_findComponent hs hfind)
      rw [hkeys] at hpair
      obtain ⟨e', he', hpair'⟩ := List.mem_flatMap.mp hpair
      obtain ⟨c', hc', heq⟩ := List.mem_map.mp hpair'
      obtain ⟨hid, rfl⟩ := Prod.mk.inj heq
      rw [List.inj_on_of_nodup_map hids he' he hid] at hc'
      exact hc hc'

/-- Two entities share a name, and one identifier is generated. The second entity has one of the two
components. -/
theorem getComponent_exact_shared : ∃ created stores,
    constructRecorded { Engine.twoCells false with
      entities := [⟨0, ["C", "D"]⟩, ⟨4, ["C"]⟩] } = .ok (created, stores) ∧
    (∃ id, created.filter (fun r => r.1 = (4, "C")) = [((4, "C"), id)] ∧
      stores.WorksAt "C" 4 (id.1, id.2 - 1)) ∧
    ∃ x, getComponent "D" 4 (UserComponent.getMutableValue "a") stores =
      (.error (.exception x), stores) := by
  obtain ⟨created, stores, hrec, -, hall⟩ := getComponent_exact default (d :=
    { Engine.twoCells false with entities := [⟨0, ["C", "D"]⟩, ⟨4, ["C"]⟩] })
    (by decide) (by decide)
  have hsecond := (hall stores .refl).1 ⟨4, ["C"]⟩ (by decide)
  obtain ⟨id, hone, -, -, hworks⟩ := (hsecond "C").1 (by decide)
  exact ⟨created, stores, hrec, ⟨id, hone, hworks⟩, (hsecond "D").2 (by decide) _ _⟩

end Stores
end Bentobox
