import Bentobox.Engine.Identifiers
import Bentobox.Engine.Isolation
import Bentobox.Engine.Resolution
import Bentobox.Engine.Settling
import Mathlib.Data.List.Count

/-!
# Applying a definition again

The definition that an application returns has all its identifiers set. When it is
applied again, with other systems or another initial graph, no identifier is
generated, and the components are created in the same order in the same groups. So
every reference leads to the component in the same place, and an initial graph
without random operations leaves the same values.
-/
namespace Bentobox

open AttributeStore SimulationStore

/-! ## Building twice -/

namespace Stores
variable {defs : OrderedDict String ComponentDef}

/-- The same components in the same groups, attached to the same entities. An entity that is
missing counts as one without components. -/
structure SameBuild (s t : Stores) : Prop where
  compStore : t.compStore = s.compStore
  componentType : t.indexStore.componentType = s.indexStore.componentType
  attached : ∀ e, (t.indexStore.entity.entityCompMap.get? e).getD [] =
    (s.indexStore.entity.entityCompMap.get? e).getD []

/-- Emplacing an entity attaches nothing. -/
theorem getD_emplace (map : OrderedDict EntityId ComponentSet) (id e : EntityId) :
    ((EntityIndex.emplace map id).get? e).getD [] = (map.get? e).getD [] := by
  rw [EntityIndex.get?_emplace]
  split_ifs with h
  · rw [h.1, h.2]
    rfl
  · rfl

/-- Numbering an entity builds nothing, and gives it an identifier. -/
theorem entityId_spec {entity : EntityDef} {s s' : Stores} {id : EntityId}
    (h : entityId entity s = (.ok id, s')) : id ≠ UNSET_ENTITY_ID ∧ SameBuild s' s := by
  rw [entityId] at h
  split_ifs at h with hid
  · simp only [onEntityIndex, EntityIndex.generateId_eq] at h
    split_ifs at h with hnext
    · cases h
      refine ⟨?_, rfl, rfl, fun e => ?_⟩
      · simp [EntityIndex.addEntityId, hnext, UNSET_ENTITY_ID]
      · exact ((getD_emplace _ _ e).trans (getD_emplace _ _ e)).symm
    · cases h
      exact ⟨hnext, rfl, rfl, fun e => (getD_emplace _ _ e).symm⟩
  · cases h
    exact ⟨hid, rfl, rfl, fun e => rfl⟩

/-- Creating a component builds the same twice. -/
theorem SameBuild.createComponent {s t s' t' : Stores} (h : SameBuild s t) {e : EntityId}
    {n : String} (hs : Stores.createComponent defs e n s = (.ok (), s'))
    (ht : Stores.createComponent defs e n t = (.ok (), t')) : SameBuild s' t' := by
  obtain ⟨id, s₁, hadd, hatt⟩ := Fallible.bind_eq_ok_iff.mp hs
  obtain ⟨id', t₁, hadd', hatt'⟩ := Fallible.bind_eq_ok_iff.mp ht
  simp only [Stores.addComponent, h.compStore, h.componentType] at hadd'
  simp only [Stores.addComponent] at hadd
  obtain ⟨hid, rfl⟩ := Prod.mk.inj hadd
  obtain ⟨hid', rfl⟩ := Prod.mk.inj hadd'
  rw [hid] at hid'
  cases hid'
  simp only [onEntityIndex, EntityIndex.addComponent] at hatt hatt'
  cases hc : s.indexStore.entity.entityCompMap.get? e with
  | none => simp only [hc] at hatt; cases hatt
  | some comps =>
    cases hc' : t.indexStore.entity.entityCompMap.get? e with
    | none => simp only [hc'] at hatt'; cases hatt'
    | some comps' =>
      have hcomps : comps' = comps := by simpa [hc, hc'] using h.attached e
      simp only [hc] at hatt
      simp only [hc'] at hatt'
      cases hatt
      cases hatt'
      refine ⟨rfl, rfl, fun e' => ?_⟩
      simp only [OrderedDict.get?_insert, hcomps]
      split_ifs
      · rfl
      · exact h.attached e'

theorem SameBuild.createComponents {s t s' t' : Stores} (h : SameBuild s t) {e : EntityId}
    {names : List String}
    (hs : Fallible.forEach (Stores.createComponent defs e) names s = (.ok (), s'))
    (ht : Fallible.forEach (Stores.createComponent defs e) names t = (.ok (), t')) :
    SameBuild s' t' := by
  induction names generalizing s t with
  | nil => cases hs; cases ht; exact h
  | cons n names ih =>
    obtain ⟨_, s₁, hs₁, hs⟩ := Fallible.bind_eq_ok_iff.mp hs
    obtain ⟨_, t₁, ht₁, ht⟩ := Fallible.bind_eq_ok_iff.mp ht
    exact ih (h.createComponent hs₁ ht₁) hs ht

theorem SameBuild.trans {s t u : Stores} (h : SameBuild s t) (h' : SameBuild t u) :
    SameBuild s u :=
  ⟨h'.compStore.trans h.compStore, h'.componentType.trans h.componentType,
    fun e => (h'.attached e).trans (h.attached e)⟩

/-- **Creating the numbered entities** numbers none and builds the same. -/
theorem SameBuild.createEntities {s t s' t' : Stores} (h : SameBuild s t)
    {entities numbered numbered' : List EntityDef}
    (hs : Fallible.mapEach (createEntity defs) entities s = (.ok numbered, s'))
    (ht : Fallible.mapEach (createEntity defs) numbered t = (.ok numbered', t')) :
    numbered' = numbered ∧ SameBuild s' t' := by
  induction entities generalizing s t numbered numbered' with
  | nil =>
    cases hs
    cases ht
    exact ⟨rfl, h⟩
  | cons entity entities ih =>
    obtain ⟨e₁, s₁, hs₁, hs⟩ := Fallible.bind_eq_ok_iff.mp hs
    obtain ⟨es, s₂, hs₂, hs⟩ := Fallible.bind_eq_ok_iff.mp hs
    cases hs
    obtain ⟨id, s₃, hid, hs₁⟩ := Fallible.bind_eq_ok_iff.mp hs₁
    obtain ⟨_, s₄, hcomps, hs₁⟩ := Fallible.bind_eq_ok_iff.mp hs₁
    cases hs₁
    obtain ⟨e₁', t₁, ht₁, ht⟩ := Fallible.bind_eq_ok_iff.mp ht
    obtain ⟨es', t₂, ht₂, ht⟩ := Fallible.bind_eq_ok_iff.mp ht
    cases ht
    obtain ⟨id', t₃, hid', ht₁⟩ := Fallible.bind_eq_ok_iff.mp ht₁
    obtain ⟨_, t₄, hcomps', ht₁⟩ := Fallible.bind_eq_ok_iff.mp ht₁
    cases ht₁
    obtain ⟨hset, hbuild⟩ := entityId_spec hid
    rw [entityId, if_neg hset] at hid'
    cases hid'
    obtain ⟨rfl, hbuild'⟩ := ih ((hbuild.trans h).createComponents hcomps hcomps') hs₂ ht₂
    exact ⟨rfl, hbuild'⟩

/-- Stores of the same build find the same components. -/
theorem SameBuild.findComponent {s t : Stores} (h : SameBuild s t) (n : String) (e : EntityId) :
    (t.findComponent n e).toOption = (s.findComponent n e).toOption := by
  have hattached := h.attached e
  unfold Stores.findComponent EntityIndex.filterEntityId
  rw [h.compStore, h.componentType]
  cases s.indexStore.componentType.filterCompType n s.compStore.asCompSet with
  | error x => rfl
  | ok comps =>
    simp only [Fallible.ok_bind]
    cases hs : s.indexStore.entity.entityCompMap.get? e with
    | none =>
      cases ht : t.indexStore.entity.entityCompMap.get? e with
      | none => rfl
      | some ct =>
        simp only [hs, ht, Option.getD_some, Option.getD_none] at hattached
        subst hattached
        rfl
    | some cs =>
      cases ht : t.indexStore.entity.entityCompMap.get? e with
      | none =>
        simp only [hs, ht, Option.getD_some, Option.getD_none] at hattached
        subst hattached
        rfl
      | some ct =>
        simp only [hs, ht, Option.getD_some] at hattached
        subst hattached
        rfl

/-- Stores of the same build resolve every reference alike: to the same place, and to a component
of the same definition. -/
theorem SameBuild.resolve {s t : Stores} (h : SameBuild s t) (n : String) (e : EntityId) :
    (t.location n e).toOption = (s.location n e).toOption ∧
      (t.view.layout n e).toOption = (s.view.layout n e).toOption := by
  constructor
  · simp only [location, slot, h.compStore]
    exact Fallible.toOption_bind_congr (h.findComponent n e) _
  · have hcomp : (t.component n e).toOption = (s.component n e).toOption := by
      simp only [component, h.compStore]
      exact Fallible.toOption_bind_congr (h.findComponent n e) _
    simp only [view]
    cases hs : s.component n e <;> cases ht : t.component n e <;> rw [hs, ht] at hcomp <;>
      cases hcomp <;> rfl

/-- **Constructing a numbered definition** gives it the same entities and builds the same, whatever
its systems and its initial graph are. -/
theorem construct_numbered {d r : SimulationDef} {s : Stores}
    (hd : construct d = .ok (d.withIds, s)) (hentities : r.entities = d.withIds.entities)
    (hcomponents : r.components = d.components) :
    ∃ t, construct r = .ok (r.withIds, t) ∧ r.withIds.entities = r.entities ∧ t.Wf ∧
      (∀ ref, t.view.value ref = none) ∧ SameBuild s t := by
  obtain ⟨t, hr, hwf, hnone, -⟩ := construct_spec r
  refine ⟨t, hr, ?_⟩
  rw [construct] at hd hr
  rcases hmap : Fallible.mapEach (createEntity (compDefMap d.components)) d.entities
      (initialStores d.entities) with ⟨x | es, s₁⟩
  · rw [hmap] at hd; cases hd
  · rcases hmap' : Fallible.mapEach (createEntity (compDefMap r.components)) r.entities
        (initialStores r.entities) with ⟨x | es', t₁⟩
    · rw [hmap'] at hr; cases hr
    · rw [hmap] at hd
      rw [hmap'] at hr
      obtain ⟨hdef, rfl⟩ := Prod.mk.inj (Except.ok.inj hd)
      obtain ⟨hdef', rfl⟩ := Prod.mk.inj (Except.ok.inj hr)
      have hes : d.withIds.entities = es := (congrArg SimulationDef.entities hdef).symm
      have hes' : r.withIds.entities = es' := (congrArg SimulationDef.entities hdef').symm
      have hinit : SameBuild (initialStores d.entities) (initialStores r.entities) := by
        refine ⟨rfl, rfl, fun e => ?_⟩
        have hnil : ∀ entities, ((initialStores entities).indexStore.entity.entityCompMap.get?
            e).getD [] = [] := by
          intro entities
          cases h : (initialStores entities).indexStore.entity.entityCompMap.get? e with
          | none => rfl
          | some comps => exact initialStores_entity h
        rw [hnil, hnil]
      rw [hcomponents, hentities, hes] at hmap'
      rw [hentities, hes] at hinit
      obtain ⟨heq, hbuild⟩ := hinit.createEntities hmap hmap'
      exact ⟨by rw [hes', heq, hentities, hes], hwf, hnone, hbuild⟩

end Stores
/-! ## Numbering systems twice -/

/-- Systems that all have an identifier are not numbered. -/
theorem setSystemIds_of_set {systems : List SystemDef} (h : ∀ s ∈ systems, s.id ≠ 0)
    (maxId : UInt32) : setSystemIds maxId systems = systems := by
  induction systems with
  | nil => rfl
  | cons s systems ih =>
    have hs : s.id ≠ UNSET_SYSTEM_ID := h s List.mem_cons_self
    rw [setSystemIds, if_neg hs, ih fun s' hs' => h s' (List.mem_cons_of_mem s hs')]

/-- One system that was numbered with zero, when the counter wrapped, gets zero again. -/
theorem setSystemIds_of_wrapped {systems : List SystemDef}
    (h : (systems.map SystemDef.id).count 0 ≤ 1) {maxId : UInt32} (hmax : maxId + 1 = 0) :
    setSystemIds maxId systems = systems := by
  induction systems with
  | nil => rfl
  | cons s systems ih =>
    rw [setSystemIds]
    split_ifs with hs
    · have hzero : s.id = 0 := hs
      rw [List.map_cons, hzero, List.count_cons_self] at h
      have hrest : ∀ s' ∈ systems, s'.id ≠ 0 := by
        intro s' hs' h0
        have hpos : 0 < (systems.map SystemDef.id).count 0 :=
          List.count_pos_iff.mpr (List.mem_map.mpr ⟨s', hs', h0⟩)
        omega
      rw [hmax, setSystemIds_of_set hrest, ← hzero]
    · have hset : s.id ≠ 0 := hs
      rw [List.map_cons, List.count_cons_of_ne hset] at h
      rw [ih h]

/-- The counter gives no number twice within one round. -/
theorem nodup_systemIdsAfter (last : ℕ) {k : ℕ} (hk : k ≤ 2 ^ 32) :
    (systemIdsAfter last k).Nodup := by
  refine List.Nodup.map_on (fun i hi j hj hij => ?_) List.nodup_range
  rw [List.mem_range] at hi hj
  omega

/-- The largest identifier is one of them, unless it is zero. -/
theorem exists_eq_largest {ids : List UInt32} (h : largest ids ≠ 0) :
    ∃ i ∈ ids, i.toNat = largest ids := by
  induction ids with
  | nil => exact absurd rfl h
  | cons a ids ih =>
    have hl : largest (a :: ids) = max a.toNat (largest ids) := rfl
    by_cases hle : largest ids ≤ a.toNat
    · exact ⟨a, List.mem_cons_self, by omega⟩
    · obtain ⟨i, hi, heq⟩ := ih (by omega)
      exact ⟨i, List.mem_cons_of_mem a hi, by omega⟩

/-- **Numbering numbered systems changes nothing**, within one round of the counter. -/
theorem setSystemIds_setSystemIds {systems : List SystemDef} (hlen : systems.length ≤ 2 ^ 32) :
    setSystemIds (maxSystemId (setSystemIds (maxSystemId systems) systems))
        (setSystemIds (maxSystemId systems) systems) =
      setSystemIds (maxSystemId systems) systems := by
  set numbered := setSystemIds (maxSystemId systems) systems with hnumbered
  have hcount : (systems.map SystemDef.id).count 0 ≤ 2 ^ 32 :=
    List.count_le_length.trans (by rwa [List.length_map])
  have hperm := setSystemIds_perm systems (maxSystemId systems)
  rw [← hnumbered, toNat_maxSystemId] at hperm
  by_cases hset : ∀ s ∈ numbered, s.id ≠ 0
  · exact setSystemIds_of_set hset _
  · push Not at hset
    obtain ⟨s, hs, hzero⟩ := hset
    have hnz : ∀ i ∈ (nonzero (systems.map SystemDef.id)).map UInt32.toNat, i ≠ 0 := by
      intro i hi
      obtain ⟨j, hj, rfl⟩ := List.mem_map.mp hi
      have hj' : j ≠ 0 := by simpa using (List.mem_filter.mp hj).2
      exact fun h0 => hj' (UInt32.toNat_inj.mp h0)
    -- a number zero comes from the counter, so the largest number is in use
    have hmem : (0 : ℕ) ∈ systemIdsAfter (largest (systems.map SystemDef.id))
        ((systems.map SystemDef.id).count 0) := by
      have h0 : (0 : ℕ) ∈ numbered.map fun s => s.id.toNat :=
        List.mem_map.mpr ⟨s, hs, by rw [hzero]; rfl⟩
      rcases List.mem_append.mp (hperm.mem_iff.mp h0) with h0 | h0
      · exact absurd rfl (hnz 0 h0)
      · exact h0
    have hmax : (2 ^ 32 - 1 : ℕ) ∈ numbered.map fun s => s.id.toNat := by
      refine hperm.mem_iff.mpr ?_
      obtain ⟨j, hj, hj0⟩ := List.mem_map.mp hmem
      rw [List.mem_range] at hj
      have hlt := largest_lt (systems.map SystemDef.id)
      by_cases hfirst : j = 0
      · have hlargest : largest (systems.map SystemDef.id) = 2 ^ 32 - 1 := by omega
        obtain ⟨i, hi, heq⟩ := exists_eq_largest (by omega :
          largest (systems.map SystemDef.id) ≠ 0)
        refine List.mem_append_left _ (List.mem_map.mpr ⟨i, ?_, heq.trans hlargest⟩)
        refine List.mem_filter.mpr ⟨hi, ?_⟩
        have hne : i ≠ 0 := fun h0 => by
          rw [h0, hlargest] at heq
          exact absurd heq (by decide)
        simpa using hne
      · refine List.mem_append_right _ (List.mem_map.mpr ⟨j - 1, ?_, ?_⟩)
        · rw [List.mem_range]; omega
        · omega
    refine setSystemIds_of_wrapped ?_ (UInt32.toNat_inj.mp ?_)
    · have hzeros : (numbered.map fun s => s.id.toNat).count 0 ≤ 1 := by
        rw [hperm.count_eq, List.count_append, List.count_eq_zero_of_not_mem fun h0 => hnz 0 h0 rfl,
          Nat.zero_add]
        exact List.nodup_iff_count_le_one.mp (nodup_systemIdsAfter _ hcount) 0
      have hinj : Function.Injective UInt32.toNat := fun _ _ h => UInt32.toNat_inj.mp h
      have hmap := List.count_map_of_injective (numbered.map SystemDef.id) UInt32.toNat hinj 0
      rw [List.map_map] at hmap
      rw [← hmap]
      exact hzeros
    · obtain ⟨s', hs', heq⟩ := List.mem_map.mp hmax
      have hle := le_largest (List.mem_map_of_mem (f := SystemDef.id) hs')
      have hlt := largest_lt (numbered.map SystemDef.id)
      have hnum : (maxSystemId numbered).toNat = 2 ^ 32 - 1 := by
        rw [toNat_maxSystemId]
        omega
      rw [UInt32.toNat_add, hnum]
      rfl

/-- A definition whose entities and systems are numbered already is kept. -/
theorem SimulationDef.withIds_eq_self {d : SimulationDef} (he : d.withIds.entities = d.entities)
    (hs : d.withIds.systems = d.systems) : d.withIds = d := by
  obtain ⟨name, entities, components, systems, initGraph⟩ := d
  simp only [withIds] at he hs
  simp only [withIds, he, hs]

/-! ## Running the initial graph twice -/

namespace AttributeMap
variable {F : FloatOps} {m m' : AttributeMap}

/-- The same values on layouts that have the same components. -/
structure Alike (m m' : AttributeMap) : Prop where
  layout : ∀ n e, (m'.layout n e).toOption = (m.layout n e).toOption
  value : m'.value = m.value

theorem Alike.get (h : Alike m m') (ref : AttributeRef) :
    (m'.get ref).toOption = (m.get ref).toOption := by
  simp only [AttributeMap.get, h.value]
  exact Fallible.toOption_bind_congr (h.layout _ _) _

theorem Alike.stored (h : Alike m m') (o : Mutate) : m'.stored F o = m.stored F o := by
  have hvaluation : m'.valuation = m.valuation := funext h.get
  simp only [AttributeMap.stored, accepted, hvaluation, converted]
  cases denote F m.valuation o.toNode with
  | none => rfl
  | some v => exact Fallible.toOption_bind_congr (h.layout _ _) _

theorem Alike.set (h : Alike m m') (ref : AttributeRef) (w : Value) :
    Alike (m.set ref w) (m'.set ref w) :=
  ⟨h.layout, by simp only [AttributeMap.set, h.value]⟩

/-- Outputs without random operations that succeed on one map do so on the other. -/
theorem Alike.forEach {os : List Mutate} (hfree : ∀ o ∈ os, o.toNode.randomFree)
    (h : Alike m m') {gen : ℕ} {s : Env AttributeMap}
    (hrun : Fallible.forEach (mutateOp F) os ⟨m, gen⟩ = (.ok (), s)) (gen' : ℕ) :
    ∃ s', Fallible.forEach (mutateOp F) os ⟨m', gen'⟩ = (.ok (), s') ∧ Alike s.store s'.store := by
  induction os generalizing m m' gen gen' with
  | nil =>
    cases hrun
    exact ⟨_, rfl, h⟩
  | cons o os ih =>
    obtain ⟨_, ⟨m₁, gen₁⟩, ho, hrest⟩ := Fallible.bind_eq_ok_iff.mp hrun
    obtain ⟨w, hw, rfl⟩ := (mutateOp_iff_stored (hfree o List.mem_cons_self)).mp ⟨gen₁, ho⟩
    obtain ⟨gen₁', ho'⟩ := (@mutateOp_iff_stored F o (hfree o List.mem_cons_self) m' _ gen').mpr
      ⟨w, (h.stored o).trans hw, rfl⟩
    obtain ⟨s', hs', hlike⟩ := ih (fun o' ho' => hfree o' (List.mem_cons_of_mem o ho'))
      (h.set o.mutateAttr w) hrest gen₁'
    exact ⟨s', by rw [Fallible.forEach, Fallible.run_bind_of_ok ho', hs'], hlike⟩

end AttributeMap

/-! ## Applying twice -/

/-- The answer without the text of an error. -/
def Response.outcome : Response → Response
  | error code _ => error code ""
  | r => r

namespace Engine
variable {F : FloatOps}

/-- An application succeeds when the name is not locked and the initial graph runs through. -/
theorem applySimulation_eq_simulation_iff {e e₁ : Engine Stores} {d r : SimulationDef} :
    step F e (.applySimulation d) = some (.simulation r, e₁) ↔
      ((e.sims.get? d.name).map Simulation.locked).getD false = false ∧ r = d.withIds ∧
      ∃ stores s, Stores.construct d = .ok (d.withIds, stores) ∧
        runGraph F d.initGraph ⟨stores, e.gen⟩ = (.ok (), s) ∧
        e₁ = e.register d.name ⟨d.withIds, stores, false⟩ s := by
  obtain ⟨stores, hc, -⟩ := construct_spec d
  have hcon := construct_stores hc
  have hinit : d.withIds.initGraph = d.initGraph := rfl
  simp only [step, applySimulation, hcon, createSimulation, hinit]
  cases hlock : ((e.sims.get? d.name).map Simulation.locked).getD false with
  | true => simp
  | false =>
    rcases hr : runGraph F d.initGraph ⟨stores, e.gen⟩ with ⟨(x | x) | ⟨⟩, s⟩
    · simp [answer, runOn, hr, hc]
    · simp [answer, runOn, hr, hc]
    · simp [answer, runOn, hr, hc, eq_comm]

/-- What `getAttribute` answers, apart from the text of an error. -/
theorem getAttribute_outcome {e : Engine Stores} {name : String} {sim : Simulation Stores}
    (hsim : e.sims.get? name = some sim) (ref : AttributeRef) :
    (step F e (.getAttribute name ref)).map (fun r => r.1.outcome) =
      some (match (reading sim.store ref).toOption with
        | some v => .value v
        | none => .error .notFound "") := by
  have hres : (runOn (onStore (retrieve ref)) name sim e).1 = reading sim.store ref := rfl
  simp only [step, getAttribute, hsim, answer, hres]
  rcases h : reading sim.store ref with (x | x) | v
  · rfl
  · exact absurd h (Stores.reading_ne_undefined sim.store ref)
  · rfl

/-- **Re-applying an applied definition is stable.** While the name is not locked, the returned
definition is accepted again with any systems and initial graph that runs through: it keeps its
entities and every reference resolves as before. With the same systems and an initial graph without
random operations it is returned again, and every attribute is answered as before. (A message has
fewer than `2 ^ 31` systems.) -/
theorem reapply_stable {e e₁ : Engine Stores} {d r : SimulationDef}
    (happly : step F e (.applySimulation d) = some (.simulation r, e₁)) {e' : Engine Stores}
    (hlock : ((e'.sims.get? d.name).map Simulation.locked).getD false = false) :
    (∀ (r' r'' : SimulationDef) e₂, r'.name = r.name → r'.entities = r.entities →
      r'.components = r.components →
      step F e' (.applySimulation r') = some (.simulation r'', e₂) →
      r''.entities = r.entities ∧ ∃ sim₁ sim₂, e₁.sims.get? d.name = some sim₁ ∧
        e₂.sims.get? d.name = some sim₂ ∧ ∀ n id,
          (sim₂.store.location n id).toOption = (sim₁.store.location n id).toOption ∧
          (sim₂.store.view.layout n id).toOption = (sim₁.store.view.layout n id).toOption) ∧
    (d.systems.length ≤ 2 ^ 32 → d.initGraph.randomFree →
      ∃ e₂, step F e' (.applySimulation r) = some (.simulation r, e₂) ∧ ∀ ref,
        (step F e₂ (.getAttribute d.name ref)).map (fun a => a.1.outcome) =
          (step F e₁ (.getAttribute d.name ref)).map fun a => a.1.outcome) := by
  obtain ⟨-, rfl, stores, s, hd, hrun, rfl⟩ := applySimulation_eq_simulation_iff.mp happly
  obtain ⟨stores', hd', hwf, hnone, -⟩ := construct_spec d
  rw [hd] at hd'
  cases hd'
  have hsim₁ : (e.register d.name ⟨d.withIds, stores, false⟩ s).sims.get? d.name =
      some ⟨d.withIds, s.store, false⟩ := OrderedDict.get?_insert_self _ _ _
  constructor
  · intro r' r'' e₂ hname hentities hcomponents hstep
    have hname' : r'.name = d.name := hname
    obtain ⟨-, rfl, stores₂, s₂, hr', hrun₂, rfl⟩ := applySimulation_eq_simulation_iff.mp hstep
    obtain ⟨t, ht, hent, hwf₂, -, hbuild⟩ := Stores.construct_numbered hd hentities hcomponents
    rw [hr'] at ht
    cases ht
    refine ⟨hent.trans hentities, _, ⟨r'.withIds, s₂.store, false⟩, hsim₁, ?_, fun n id => ?_⟩
    · rw [← hname']
      exact OrderedDict.get?_insert_self _ _ _
    · -- the initial graphs move no component
      have hres : stores.Resolves s.store :=
        (runGraph_refines F (Stores.resolves_refines stores) d.initGraph).keeps.run
          (.refl hwf) hrun
      have hres₂ : stores₂.Resolves s₂.store :=
        (runGraph_refines F (Stores.resolves_refines stores₂) r'.initGraph).keeps.run
          (.refl hwf₂) hrun₂
      simp only [hres.location, hres₂.location, hres.layout, hres₂.layout]
      exact hbuild.resolve n id
  · intro hlen hfree
    obtain ⟨t, ht, hent, hwf₂, hnone₂, hbuild⟩ := Stores.construct_numbered hd
      (r := d.withIds) rfl rfl
    have hagain : d.withIds.withIds = d.withIds :=
      SimulationDef.withIds_eq_self hent (setSystemIds_setSystemIds hlen)
    -- the initial graph runs through on the map of the second build as on that of the first
    have hlike : AttributeMap.Alike stores.view t.view :=
      ⟨fun n e => (hbuild.resolve n e).2, funext fun ref => (hnone₂ ref).trans (hnone ref).symm⟩
    have hmap := (runGraph_refines F Stores.stores_refine_map d.initGraph).eq
      (s := ⟨stores, e.gen⟩) hwf
    rw [hrun] at hmap
    obtain ⟨s', hs', hlike'⟩ := hlike.forEach hfree hmap e'.gen
    have hmap₂ := (runGraph_refines F Stores.stores_refine_map d.initGraph).eq
      (s := ⟨t, e'.gen⟩) hwf₂
    have hwf' : s.store.Wf :=
      (runGraph_refines F Stores.stores_refine_map d.initGraph).keeps.run hwf hrun
    have hwf₂' := (runGraph_refines F Stores.stores_refine_map d.initGraph).keeps
      ⟨t, e'.gen⟩ hwf₂
    rcases hrun₂ : runGraph F d.initGraph ⟨t, e'.gen⟩ with ⟨x, s₂⟩
    rw [hrun₂] at hmap₂ hwf₂'
    obtain ⟨rfl, rfl⟩ := Prod.mk.inj (hs'.symm.trans hmap₂)
    refine ⟨_, applySimulation_eq_simulation_iff.mpr
      ⟨hlock, hagain.symm, t, s₂, ht, hrun₂, rfl⟩, fun ref => ?_⟩
    rw [getAttribute_outcome hsim₁, getAttribute_outcome (OrderedDict.get?_insert_self _ _ _)]
    have hget := hlike'.get ref
    rw [reading_eq_get hwf', reading_eq_get hwf₂']
    simp only [Env.map] at hget
    rw [hget]

/-- A generated and a configured identifier, and an unnumbered system. -/
theorem reapply_stable_generated : ∃ r e₁,
    step default (new 0 : Engine Stores) (.applySimulation { twoCells false with
      entities := [⟨0, ["C"]⟩, ⟨4, ["C"]⟩], systems := [⟨0, ⟨[], []⟩⟩] }) =
      some (.simulation r, e₁) ∧ r.entities = [⟨5, ["C"]⟩, ⟨4, ["C"]⟩] ∧
    ∃ e₂, step default e₁ (.applySimulation r) = some (.simulation r, e₂) := by
  obtain ⟨stores, hc, -⟩ := construct_spec { twoCells false with
    entities := [⟨0, ["C"]⟩, ⟨4, ["C"]⟩], systems := [⟨0, ⟨[], []⟩⟩] }
  obtain ⟨e₁, happly⟩ : ∃ e₁, step default (new 0 : Engine Stores) (.applySimulation _) =
      some (.simulation _, e₁) :=
    ⟨_, applySimulation_eq_simulation_iff.mpr ⟨rfl, rfl, stores, _, hc, rfl, rfl⟩⟩
  have hlock : ((e₁.sims.get? "s").map Simulation.locked).getD false = false := by
    obtain ⟨-, -, _, _, -, -, rfl⟩ := applySimulation_eq_simulation_iff.mp happly
    rfl
  obtain ⟨e₂, hstep, -⟩ := (reapply_stable happly hlock).2 (by decide) fun _ ho => nomatch ho
  exact ⟨_, e₁, happly, rfl, e₂, hstep⟩

end Engine
end Bentobox
