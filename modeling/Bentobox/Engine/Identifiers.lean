import Bentobox.Engine.Answers
import Mathlib.Algebra.Group.Nat.Defs
import Mathlib.Data.List.Range
import Mathlib.Data.List.Nodup

/-!
# Generated identifiers

Entities and systems without an identifier are numbered from the largest one in
use, in 32 bits. The counter of the entities skips zero when it wraps and then runs
through the configured identifiers again; the counter of the systems does not even
skip zero. `IdsFit` says when neither happens.
-/
namespace Bentobox

open AttributeStore SimulationStore

/-- The identifiers that are set. -/
def nonzero (ids : List UInt32) : List UInt32 := ids.filter (· ≠ 0)

/-- The largest identifier, zero for none. -/
def largest (ids : List UInt32) : ℕ := (ids.map UInt32.toNat).foldr max 0

theorem le_largest {ids : List UInt32} {i : UInt32} (h : i ∈ ids) : i.toNat ≤ largest ids := by
  induction ids with
  | nil => cases h
  | cons a ids ih =>
    have hl : largest (a :: ids) = max a.toNat (largest ids) := rfl
    rcases List.mem_cons.mp h with rfl | h
    · omega
    · have := ih h; omega

theorem largest_lt (ids : List UInt32) : largest ids < 2 ^ 32 := by
  induction ids with
  | nil => simp [largest]
  | cons a ids ih =>
    have hl : largest (a :: ids) = max a.toNat (largest ids) := rfl
    have := a.toNat_lt
    omega

/-! ## Entities -/

/-- The identifiers that the counter of the entities gives after `last`. -/
def entityIdsAfter (last k : ℕ) : List ℕ :=
  (List.range k).map fun j => (last + j) % (2 ^ 32 - 1) + 1

theorem entityIdsAfter_succ (last k : ℕ) : entityIdsAfter last (k + 1) =
    (last % (2 ^ 32 - 1) + 1) :: entityIdsAfter (last % (2 ^ 32 - 1) + 1) k := by
  simp only [entityIdsAfter, List.range_succ_eq_map, List.map_cons, List.map_map, Nat.add_zero]
  congr 1
  refine List.map_congr_left fun j _ => ?_
  simp only [Function.comp_apply]
  omega

/-- The result has the configured identifiers and the next ones of the counter. -/
theorem setEntityIdsFrom_perm (entities : List EntityDef) {next : UInt32} {last : ℕ}
    (hlast : last < 2 ^ 32) (hnext : next.toNat = (last + 1) % 2 ^ 32) :
    ((setEntityIdsFrom next entities).map fun e => e.id.toNat).Perm
      ((nonzero (entities.map EntityDef.id)).map UInt32.toNat ++
        entityIdsAfter last ((entities.map EntityDef.id).count 0)) := by
  induction entities generalizing next last with
  | nil => simp [setEntityIdsFrom, nonzero, entityIdsAfter]
  | cons e entities ih =>
    by_cases h : e.id = 0
    · have hset : setEntityIdsFrom next (e :: entities) =
          { e with id := if next = 0 then 1 else next } ::
            setEntityIdsFrom ((if next = 0 then 1 else next) + 1) entities := by
        rw [setEntityIdsFrom]
        exact if_pos h
      have hid : (if next = 0 then 1 else next : UInt32).toNat = last % (2 ^ 32 - 1) + 1 := by
        split_ifs with h0
        · subst h0
          simp at hnext ⊢
          omega
        · have hne : next.toNat ≠ 0 := fun hz => h0 (UInt32.toNat_inj.mp hz)
          omega
      have hlast' : last % (2 ^ 32 - 1) + 1 < 2 ^ 32 := by omega
      have hperm := @ih ((if next = 0 then 1 else next) + 1) _ hlast' (by
        rw [UInt32.toNat_add, hid]; rfl)
      rw [hset]
      simp only [List.map_cons, hid]
      rw [h, List.count_cons_self, entityIdsAfter_succ]
      have hnz : nonzero (0 :: entities.map EntityDef.id) =
          nonzero (entities.map EntityDef.id) := by simp [nonzero]
      rw [hnz]
      exact (List.Perm.cons _ hperm).trans List.perm_middle.symm
    · have hset : setEntityIdsFrom next (e :: entities) =
          e :: setEntityIdsFrom next entities := by
        rw [setEntityIdsFrom]
        exact if_neg h
      have hnz : nonzero (e.id :: entities.map EntityDef.id) =
          e.id :: nonzero (entities.map EntityDef.id) := by simp [nonzero, h]
      rw [hset]
      simp only [List.map_cons]
      rw [hnz, List.count_cons_of_ne h]
      exact List.Perm.cons _ (ih hlast hnext)

/-- The identifiers of the counter are distinct, and not in use, as long as it does not come
around to one in use. -/
theorem nodup_entityIds {conf : List ℕ} {last k : ℕ} (hconf : conf.Nodup)
    (hpos : ∀ c ∈ conf, 0 < c ∧ c ≤ last) (hlast : last < 2 ^ 32) :
    (conf ++ entityIdsAfter last k).Nodup ↔
      (∀ c ∈ conf, last + k < c + (2 ^ 32 - 1)) ∧ k ≤ 2 ^ 32 - 1 := by
  rw [List.nodup_append]
  constructor
  · rintro ⟨-, hnodup, hdisj⟩
    constructor
    · intro c hc
      by_contra hge
      obtain ⟨hc0, hcl⟩ := hpos c hc
      refine hdisj c hc c (List.mem_map.mpr ⟨c + (2 ^ 32 - 1) - 1 - last, ?_, ?_⟩) rfl
      · rw [List.mem_range]; omega
      · omega
    · by_contra hk
      have hinj := List.inj_on_of_nodup_map hnodup
      have h0 : (0 : ℕ) ∈ List.range k := by rw [List.mem_range]; omega
      have hN : (2 ^ 32 - 1 : ℕ) ∈ List.range k := by rw [List.mem_range]; omega
      have := hinj h0 hN (by simp)
      omega
  · rintro ⟨hfit, hk⟩
    refine ⟨hconf, ?_, ?_⟩
    · refine List.Nodup.map_on (fun i hi j hj hij => ?_) List.nodup_range
      rw [List.mem_range] at hi hj
      omega
    · intro c hc c' hc' heq
      subst heq
      obtain ⟨j, hj, hcj⟩ := List.mem_map.mp hc'
      rw [List.mem_range] at hj
      obtain ⟨hc0, hcl⟩ := hpos c hc
      have := hfit c hc
      omega

theorem entityIdsAfter_ne_zero {last k i : ℕ} (h : i ∈ entityIdsAfter last k) : i ≠ 0 := by
  obtain ⟨j, -, rfl⟩ := List.mem_map.mp h
  omega

/-! ## Systems -/

/-- The identifiers that the counter of the systems gives after `last`. -/
def systemIdsAfter (last k : ℕ) : List ℕ :=
  (List.range k).map fun j => (last + j + 1) % 2 ^ 32

theorem systemIdsAfter_succ (last k : ℕ) : systemIdsAfter last (k + 1) =
    ((last + 1) % 2 ^ 32) :: systemIdsAfter ((last + 1) % 2 ^ 32) k := by
  simp only [systemIdsAfter, List.range_succ_eq_map, List.map_cons, List.map_map, Nat.add_zero]
  congr 1
  refine List.map_congr_left fun j _ => ?_
  simp only [Function.comp_apply]
  omega

theorem setSystemIds_perm (systems : List SystemDef) (maxId : UInt32) :
    ((setSystemIds maxId systems).map fun s => s.id.toNat).Perm
      ((nonzero (systems.map SystemDef.id)).map UInt32.toNat ++
        systemIdsAfter maxId.toNat ((systems.map SystemDef.id).count 0)) := by
  induction systems generalizing maxId with
  | nil => simp [setSystemIds, nonzero, systemIdsAfter]
  | cons s systems ih =>
    by_cases h : s.id = 0
    · have hset : setSystemIds maxId (s :: systems) =
          { s with id := maxId + 1 } :: setSystemIds (maxId + 1) systems := by
        rw [setSystemIds]
        exact if_pos h
      have hid : (maxId + 1).toNat = (maxId.toNat + 1) % 2 ^ 32 := by
        rw [UInt32.toNat_add]; rfl
      have hnz : nonzero (0 :: systems.map SystemDef.id) =
          nonzero (systems.map SystemDef.id) := by simp [nonzero]
      have hperm := ih (maxId + 1)
      rw [hid] at hperm
      rw [hset]
      simp only [List.map_cons, hid]
      rw [h, List.count_cons_self, systemIdsAfter_succ, hnz]
      exact (List.Perm.cons _ hperm).trans List.perm_middle.symm
    · have hset : setSystemIds maxId (s :: systems) = s :: setSystemIds maxId systems := by
        rw [setSystemIds]
        exact if_neg h
      have hnz : nonzero (s.id :: systems.map SystemDef.id) =
          s.id :: nonzero (systems.map SystemDef.id) := by simp [nonzero, h]
      rw [hset]
      simp only [List.map_cons]
      rw [hnz, List.count_cons_of_ne h]
      exact List.Perm.cons _ (ih maxId)

/-- The identifiers of the counter are set, distinct and not in use as long as it does not
wrap. -/
theorem nodup_systemIds {conf : List ℕ} {last k : ℕ} (hconf : conf.Nodup)
    (hpos : ∀ c ∈ conf, 0 < c ∧ c ≤ last) (hlast : last < 2 ^ 32) :
    ((∀ i ∈ conf ++ systemIdsAfter last k, i ≠ 0) ∧ (conf ++ systemIdsAfter last k).Nodup) ↔
      last + k < 2 ^ 32 := by
  constructor
  · rintro ⟨hne, -⟩
    by_contra hge
    refine hne 0 (List.mem_append_right _ (List.mem_map.mpr ⟨2 ^ 32 - 1 - last, ?_, ?_⟩)) rfl
    · rw [List.mem_range]; omega
    · omega
  · intro hfit
    have hmem : ∀ i ∈ systemIdsAfter last k, last < i := by
      intro i hi
      obtain ⟨j, hj, rfl⟩ := List.mem_map.mp hi
      rw [List.mem_range] at hj
      omega
    constructor
    · intro i hi
      rcases List.mem_append.mp hi with hi | hi
      · exact (hpos i hi).1.ne'
      · have := hmem i hi; omega
    · rw [List.nodup_append]
      refine ⟨hconf, ?_, fun c hc i hi hci => ?_⟩
      · refine List.Nodup.map_on (fun i hi j hj hij => ?_) List.nodup_range
        rw [List.mem_range] at hi hj
        omega
      · have := (hpos c hc).2
        have := hmem i hi
        omega

/-! ## The largest identifier -/

theorem largest_nonzero (ids : List UInt32) : largest (nonzero ids) = largest ids := by
  induction ids with
  | nil => rfl
  | cons a ids ih =>
    have hl : largest (a :: ids) = max a.toNat (largest ids) := rfl
    by_cases h : a = 0
    · have hnz : nonzero (a :: ids) = nonzero ids := by simp [nonzero, h]
      rw [hnz, ih, hl, h]
      simp
    · have hnz : nonzero (a :: ids) = a :: nonzero ids := by simp [nonzero, h]
      rw [hnz, hl, ← ih]
      rfl

theorem toNat_maxId (ids : List UInt32) : (EntityIndex.maxId ids.reverse).toNat = largest ids := by
  rw [EntityIndex.maxId, List.foldl_reverse]
  induction ids with
  | nil => rfl
  | cons a ids ih =>
    have hl : largest (a :: ids) = max a.toNat (largest ids) := rfl
    rw [List.foldr_cons, hl, ← ih]
    split_ifs with h
    · have := UInt32.lt_iff_toNat_lt.mp h
      omega
    · have : ¬ _ < _ := fun hlt => h (UInt32.lt_iff_toNat_lt.mpr hlt)
      omega

theorem toNat_maxSystemId (systems : List SystemDef) :
    (maxSystemId systems).toNat = largest (systems.map SystemDef.id) := by
  have hgen : ∀ (systems : List SystemDef) (m : UInt32),
      (systems.foldl (fun maxId s =>
        if s.id ≠ UNSET_SYSTEM_ID ∧ s.id > maxId then s.id else maxId) m).toNat =
        max m.toNat (largest (systems.map SystemDef.id)) := by
    intro systems
    induction systems with
    | nil => intro m; simp [largest]
    | cons s systems ih =>
      intro m
      have hl : largest ((s :: systems).map SystemDef.id) =
          max s.id.toNat (largest (systems.map SystemDef.id)) := rfl
      rw [List.foldl_cons, ih, hl]
      split_ifs with h
      · have := UInt32.lt_iff_toNat_lt.mp h.2
        omega
      · have : s.id.toNat ≤ m.toNat := by
          by_contra hlt
          have hlt' : m < s.id := UInt32.lt_iff_toNat_lt.mpr (by omega)
          refine h ⟨fun h0 => ?_, hlt'⟩
          rw [h0] at hlt
          simp [UNSET_SYSTEM_ID] at hlt
        omega
  rw [maxSystemId, hgen]
  simp

/-! ## Definitions with identifiers -/

/-- What identifier assignment is to make of a definition. -/
structure WellIdentified (d d' : SimulationDef) : Prop where
  entitiesSet : ∀ e ∈ d'.entities, e.id ≠ 0
  entitiesDistinct : (d'.entities.map EntityDef.id).Nodup
  systemsSet : ∀ s ∈ d'.systems, s.id ≠ 0
  systemsDistinct : (d'.systems.map SystemDef.id).Nodup
  entitiesKept : List.Forall₂ (fun e e' : EntityDef =>
    e'.components = e.components ∧ (e.id ≠ 0 → e'.id = e.id)) d.entities d'.entities
  systemsKept : List.Forall₂ (fun s s' : SystemDef =>
    s'.graph = s.graph ∧ (s.id ≠ 0 → s'.id = s.id)) d.systems d'.systems
  othersKept : d'.name = d.name ∧ d'.components = d.components ∧ d'.initGraph = d.initGraph

/-- The counters come around to no identifier in use: there are few enough identifiers to
generate for the gap behind the largest one, and for the systems they end below `2 ^ 32`. -/
def IdsFit (d : SimulationDef) : Prop :=
  let entityIds := d.entities.map EntityDef.id
  let systemIds := d.systems.map SystemDef.id
  (∀ c ∈ nonzero entityIds, largest entityIds + entityIds.count 0 < c.toNat + (2 ^ 32 - 1)) ∧
    entityIds.count 0 ≤ 2 ^ 32 - 1 ∧ largest systemIds + systemIds.count 0 < 2 ^ 32

theorem setEntityIdsFrom_kept (next : UInt32) (entities : List EntityDef) :
    List.Forall₂ (fun e e' : EntityDef =>
      e'.components = e.components ∧ (e.id ≠ 0 → e'.id = e.id)) entities
      (setEntityIdsFrom next entities) := by
  induction entities generalizing next with
  | nil => exact .nil
  | cons e entities ih =>
    by_cases h : e.id = UNSET_ENTITY_ID
    · rw [setEntityIdsFrom, if_pos h]
      exact .cons ⟨rfl, fun hne => absurd h hne⟩ (ih _)
    · rw [setEntityIdsFrom, if_neg h]
      exact .cons ⟨rfl, fun _ => rfl⟩ (ih _)

theorem setSystemIds_kept (maxId : UInt32) (systems : List SystemDef) :
    List.Forall₂ (fun s s' : SystemDef => s'.graph = s.graph ∧ (s.id ≠ 0 → s'.id = s.id)) systems
      (setSystemIds maxId systems) := by
  induction systems generalizing maxId with
  | nil => exact .nil
  | cons s systems ih =>
    rw [setSystemIds]
    split_ifs with h
    · exact .cons ⟨rfl, fun hne => absurd h hne⟩ (ih _)
    · exact .cons ⟨rfl, fun _ => rfl⟩ (ih _)

/-- Numbers of configured identifiers are positive, and at most the largest one. -/
private theorem configured_bounds (ids : List UInt32) :
    ∀ c ∈ (nonzero ids).map UInt32.toNat, 0 < c ∧ c ≤ largest ids := by
  intro c hc
  obtain ⟨i, hi, rfl⟩ := List.mem_map.mp hc
  have hi' := List.mem_filter.mp hi
  have hne : i ≠ 0 := by simpa using hi'.2
  exact ⟨Nat.pos_of_ne_zero fun h0 => hne (UInt32.toNat_inj.mp h0), le_largest hi'.1⟩

private theorem nodup_toNat {ids : List UInt32} :
    (ids.map UInt32.toNat).Nodup ↔ ids.Nodup :=
  List.nodup_map_iff fun _ _ h => UInt32.toNat_inj.mp h

/-- The entities of the result are distinct exactly when their counter does not come around. -/
theorem withIds_entities_nodup {d : SimulationDef}
    (hd : (nonzero (d.entities.map EntityDef.id)).Nodup) :
    (∀ e ∈ d.withIds.entities, e.id ≠ 0) ∧
      ((d.withIds.entities.map EntityDef.id).Nodup ↔
        (∀ c ∈ nonzero (d.entities.map EntityDef.id), largest (d.entities.map EntityDef.id) +
          (d.entities.map EntityDef.id).count 0 < c.toNat + (2 ^ 32 - 1)) ∧
        (d.entities.map EntityDef.id).count 0 ≤ 2 ^ 32 - 1) := by
  set ids := d.entities.map EntityDef.id with hids
  have hmax : (EntityIndex.maxId (configuredIds d.entities) + 1).toNat =
      (largest ids + 1) % 2 ^ 32 := by
    have hc : configuredIds d.entities = (nonzero ids).reverse := rfl
    rw [UInt32.toNat_add, hc, toNat_maxId, largest_nonzero]
    rfl
  have hperm := setEntityIdsFrom_perm d.entities (largest_lt ids) hmax
  rw [← hids] at hperm
  have hbounds := configured_bounds ids
  constructor
  · intro e he h0
    have hmem : e.id.toNat ∈ d.withIds.entities.map fun e => e.id.toNat :=
      List.mem_map_of_mem (f := fun e : EntityDef => e.id.toNat) he
    have hin := hperm.mem_iff.mp hmem
    have hz : e.id.toNat = 0 := by rw [h0]; rfl
    rw [hz] at hin
    rcases List.mem_append.mp hin with hin | hin
    · exact absurd (hbounds 0 hin).1 (lt_irrefl 0)
    · exact entityIdsAfter_ne_zero hin rfl
  · have hmap : (d.withIds.entities.map EntityDef.id).map UInt32.toNat =
        (setEntityIdsFrom (EntityIndex.maxId (configuredIds d.entities) + 1) d.entities).map
          fun e => e.id.toNat := by rw [List.map_map]; rfl
    rw [← nodup_toNat, hmap, hperm.nodup_iff,
      nodup_entityIds (nodup_toNat.mpr hd) hbounds (largest_lt ids)]
    simp only [List.mem_map, forall_exists_index, and_imp, forall_apply_eq_imp_iff₂]

/-- The systems of the result are set and distinct exactly when their counter does not wrap. -/
theorem withIds_systems_nodup {d : SimulationDef}
    (hd : (nonzero (d.systems.map SystemDef.id)).Nodup) :
    ((∀ s ∈ d.withIds.systems, s.id ≠ 0) ∧ (d.withIds.systems.map SystemDef.id).Nodup) ↔
      largest (d.systems.map SystemDef.id) + (d.systems.map SystemDef.id).count 0 < 2 ^ 32 := by
  set ids := d.systems.map SystemDef.id with hids
  have hperm := setSystemIds_perm d.systems (maxSystemId d.systems)
  rw [← hids, toNat_maxSystemId, ← hids] at hperm
  have hmap : (d.withIds.systems.map SystemDef.id).map UInt32.toNat =
      (setSystemIds (maxSystemId d.systems) d.systems).map fun s => s.id.toNat := by
    rw [List.map_map]; rfl
  rw [← nodup_systemIds (nodup_toNat.mpr hd) (configured_bounds ids) (largest_lt ids),
    ← nodup_toNat, hmap, hperm.nodup_iff]
  refine and_congr ⟨fun h i hi h0 => ?_, fun h s hs h0 => ?_⟩ Iff.rfl
  · obtain ⟨s, hs, rfl⟩ := List.mem_map.mp (hperm.mem_iff.mpr hi)
    exact h s hs (UInt32.toNat_inj.mp h0)
  · have hmem : s.id.toNat ∈ d.withIds.systems.map fun s => s.id.toNat :=
      List.mem_map_of_mem (f := fun s : SystemDef => s.id.toNat) hs
    refine h _ (hperm.mem_iff.mp hmem) ?_
    rw [h0]
    rfl

theorem withIds_wellIdentified_iff {d : SimulationDef}
    (hentities : (nonzero (d.entities.map EntityDef.id)).Nodup)
    (hsystems : (nonzero (d.systems.map SystemDef.id)).Nodup) :
    WellIdentified d d.withIds ↔ IdsFit d := by
  obtain ⟨hset, hent⟩ := withIds_entities_nodup hentities
  have hsys := withIds_systems_nodup hsystems
  constructor
  · intro h
    obtain ⟨h₁, h₂⟩ := hent.mp h.entitiesDistinct
    exact ⟨h₁, h₂, hsys.mp ⟨h.systemsSet, h.systemsDistinct⟩⟩
  · rintro ⟨h₁, h₂, h₃⟩
    obtain ⟨h₄, h₅⟩ := hsys.mpr h₃
    exact ⟨hset, hent.mpr ⟨h₁, h₂⟩, h₄, h₅, setEntityIdsFrom_kept _ _, setSystemIds_kept _ _,
      rfl, rfl, rfl⟩

namespace Engine
variable {F : FloatOps}

/-- **Identifier assignment.** The definition that a successful application returns is the one
it stores, and its identifiers are as they should be exactly when the counters do not come
around to identifiers in use. -/
theorem applySimulation_ids {e e' : Engine Stores} {d d' : SimulationDef}
    (hentities : (nonzero (d.entities.map EntityDef.id)).Nodup)
    (hsystems : (nonzero (d.systems.map SystemDef.id)).Nodup)
    (h : Engine.step F e (.applySimulation d) = some (.simulation d', e')) :
    ((e'.sims.get? d.name).map Simulation.simDef = some d' ∧ WellIdentified d d') ↔ IdsFit d := by
  have hres : d' = d.withIds ∧ (e'.sims.get? d.name).map Simulation.simDef = some d.withIds := by
    simp only [Engine.step, applySimulation] at h
    split_ifs at h
    · cases h
    · obtain ⟨store, hc, -⟩ := construct_spec d
      have hcon := construct_stores hc
      simp only [hcon, createSimulation] at h
      have hstate := answer_state h
      rw [answer] at h
      split at h
      · cases h
        refine ⟨rfl, ?_⟩
        simp only [runOn, Engine.register, OrderedDict.get?_insert_self, Option.map_some]
      · cases h
      · cases h
  obtain ⟨rfl, hstored⟩ := hres
  rw [withIds_wellIdentified_iff hentities hsystems |>.symm]
  exact ⟨fun h => h.2, fun h => ⟨hstored, h⟩⟩

/-- Systems with the given identifiers, and one entity. -/
def numberedSystems (ids : List UInt32) : SimulationDef :=
  ⟨"s", [⟨1, []⟩], [], ids.map fun id => ⟨id, ⟨[], []⟩⟩, ⟨[], []⟩⟩

/-- A system without an identifier next to one with the identifier five. -/
theorem applySimulation_ids_numberedSystems :
    WellIdentified (numberedSystems [5, 0]) (numberedSystems [5, 6]) := by
  have hfit : IdsFit (numberedSystems [5, 0]) := by
    refine ⟨fun c hc => ?_, by decide, by decide⟩
    have : c = 1 := by simpa [numberedSystems, nonzero] using hc
    subst this
    decide
  have hstep : ∃ e', Engine.step default (new 0 : Engine Stores)
      (.applySimulation (numberedSystems [5, 0])) =
        some (.simulation (numberedSystems [5, 6]), e') := ⟨_, rfl⟩
  obtain ⟨e', hstep⟩ := hstep
  exact ((applySimulation_ids (by decide) (by decide) hstep).mpr hfit).2

/-- Behind a system with the largest identifier the counter wraps to zero. -/
theorem identifiers_wrap :
    ¬ ∀ (F : FloatOps) (e e' : Engine Stores) (d d' : SimulationDef),
      (nonzero (d.entities.map EntityDef.id)).Nodup → (nonzero (d.systems.map SystemDef.id)).Nodup →
      Engine.step F e (.applySimulation d) = some (.simulation d', e') →
      (e'.sims.get? d.name).map Simulation.simDef = some d' ∧ WellIdentified d d' := by
  intro h
  have hw := (h default (new 0) _ (numberedSystems [4294967295, 0])
    (numberedSystems [4294967295, 0]) (by decide) (by decide) rfl).2
  exact hw.systemsSet ⟨0, ⟨[], []⟩⟩ (by simp [numberedSystems]) rfl

end Engine
end Bentobox
