import Bentobox.Sdk.Plotters

/-!
# Simulations

A simulation makes a gRPC entity of each entity definition that the engine has applied. Like the
plotter it keeps them under the sets of their component names.
-/
namespace Bentobox.Sdk

namespace Grpc

structure Component where
  simName : String
  entityId : UInt32
  name : String
  deriving DecidableEq

structure Entity where
  simName : String
  entityId : UInt32
  componentMap : OrderedDict String Component
  deriving DecidableEq

def Entity.init (simName : String) (components : List String) (entityId : UInt32) : Entity :=
  ⟨simName, entityId, OrderedDict.index id (Component.mk simName entityId) components⟩

end Grpc

structure Simulation where
  name : String
  started : Bool
  componentDefs : List ComponentDef
  entityDefs : List EntityDef
  entityMap : OrderedDict (Finset String) Grpc.Entity

namespace Simulation

/-- `Simulation.__init__`, with what the engine answers to `apply_sim`. -/
def init (name : String) (components : List ComponentDef) (appliedProto : SimulationDef) :
    Simulation where
  name := name
  started := false
  componentDefs := components
  entityDefs := appliedProto.entities
  entityMap := OrderedDict.index (fun e => e.components.toFinset)
    (fun e => Grpc.Entity.init name e.components e.id) appliedProto.entities

/-- `start`, once the engine has applied the simulation with its graphs. -/
def start (sim : Simulation) : Simulation := { sim with started := true }

def stop (sim : Simulation) : Except EntityError Simulation :=
  if sim.started then .ok { sim with started := false }
  else .error (.runtimeError "Cannot stop a Simulation that has not started yet.")

def entity (sim : Simulation) (components : List String) : Except EntityError Grpc.Entity :=
  if !sim.started then
    .error (.runtimeError
      "Cannot obtain a gRPC Entity from a Simulation that has not started yet.")
  else if components.toFinset.card ≠ components.length then
    .error (.valueError "Given component names should not contain duplicates")
  else
    match sim.entityMap.get? components.toFinset with
    | some e => .ok e
    | none => .error (.noEntity components.toFinset)

def entities (sim : Simulation) : List Grpc.Entity := sim.entityMap.values

/-- The states of a simulation between its start and its end. -/
inductive Reachable (created : Simulation) : Simulation → Prop
  | init : Reachable created created
  | start {sim : Simulation} : Reachable created sim → Reachable created sim.start
  | stop {sim sim' : Simulation} :
    Reachable created sim → sim.stop = .ok sim' → Reachable created sim'

theorem Reachable.entityMap {created sim : Simulation} (h : Reachable created sim) :
    sim.entityMap = created.entityMap := by
  induction h with
  | init => rfl
  | start _ ih => exact ih
  | stop _ hstop ih =>
    rw [Simulation.stop] at hstop
    split at hstop
    · cases hstop
      exact ih
    · cases hstop

/-- The two definitions are found as the same entity. -/
def Confused {α : Type} (entity : List String → Except EntityError α) (d d' : EntityDef) : Prop :=
  ∃ e, entity d.components = .ok e ∧ entity d'.components = .ok e

/-- No entity of the definitions is lost: there is one for each of them, and neither the
simulation nor a plotter takes one of them for another. -/
structure NoEntityLost (defs : List EntityDef) (sim : Simulation) : Prop where
  entities : (sim.entities.map Grpc.Entity.entityId).Perm (defs.map EntityDef.id)
  simulation : ∀ d ∈ defs, ∀ d' ∈ defs, d.id ≠ d'.id → ¬ Confused sim.entity d d'
  plotter : ∀ g, Plot.Plotter.init defs sim.componentDefs = .ok g →
    ∀ d ∈ defs, ∀ d' ∈ defs, d.id ≠ d'.id → ¬ Confused g.entity d d'

section
variable {name : String} {components : List ComponentDef} {appliedProto : SimulationDef}
  {sim : Simulation}

/-- An entity that is found stands for a definition with the given components. -/
theorem entity_eq_ok (h : Reachable (init name components appliedProto) sim)
    {names : List String} {e : Grpc.Entity} (he : sim.entity names = .ok e) :
    ∃ d ∈ appliedProto.entities, d.components.toFinset = names.toFinset ∧ d.id = e.entityId := by
  rw [entity, h.entityMap] at he
  split_ifs at he
  split at he
  next e' hget =>
    cases he
    obtain ⟨d, hd, hkey, rfl⟩ := OrderedDict.get?_index hget
    exact ⟨d, hd, hkey, rfl⟩
  next => cases he

/-- With distinct sets of components, what is found for a definition has its id. -/
theorem eq_of_toFinset_eq {defs : List EntityDef}
    (h : (defs.map fun d => d.components.toFinset).Nodup) {d d' : EntityDef} (hd : d ∈ defs)
    (hd' : d' ∈ defs) (heq : d.components.toFinset = d'.components.toFinset) : d = d' :=
  List.inj_on_of_nodup_map h hd hd' heq

/-- **No entity is lost** exactly when no two definitions have the same set of components. -/
theorem noEntityLost_iff (h : Reachable (init name components appliedProto) sim) :
    NoEntityLost appliedProto.entities sim ↔
      (appliedProto.entities.map fun d => d.components.toFinset).Nodup := by
  constructor
  · intro hlost
    have hlen := hlost.entities.length_eq
    simp only [List.length_map, entities, h.entityMap, OrderedDict.values] at hlen
    exact OrderedDict.size_index_iff.mp hlen
  · intro hnodup
    refine ⟨?_, fun d hd d' hd' hne => ?_, fun g hg d hd d' hd' hne => ?_⟩
    · rw [entities, h.entityMap, OrderedDict.values, init, OrderedDict.entries_index hnodup,
        List.map_map, List.map_map]
      exact .refl _
    · rintro ⟨e, he, he'⟩
      obtain ⟨f, hf, hset, hid⟩ := entity_eq_ok h he
      obtain ⟨f', hf', hset', hid'⟩ := entity_eq_ok h he'
      obtain rfl := eq_of_toFinset_eq hnodup hf hd hset
      obtain rfl := eq_of_toFinset_eq hnodup hf' hd' hset'
      exact hne (hid.trans hid'.symm)
    · rintro ⟨e, he, he'⟩
      obtain ⟨f, hf, hstands⟩ := Plot.Plotter.entity_eq_ok hg he
      obtain ⟨f', hf', hstands'⟩ := Plot.Plotter.entity_eq_ok hg he'
      obtain rfl := eq_of_toFinset_eq hnodup hf hd hstands.components.symm
      obtain rfl := eq_of_toFinset_eq hnodup hf' hd' hstands'.components.symm
      exact hne (hstands.entityId.symm.trans hstands'.entityId)

end

/-- Two definitions with the same component. -/
def sameComponents : SimulationDef :=
  ⟨"sim", [⟨1, ["Position"]⟩, ⟨2, ["Position"]⟩], [⟨"Position", ∅⟩], [], ⟨[], []⟩⟩

theorem entity_lost : ∃ sim g, Reachable (init "sim" sameComponents.components sameComponents) sim ∧
    Plot.Plotter.init sim.entityDefs sim.componentDefs = .ok g ∧
    sim.entities.map Grpc.Entity.entityId = [2] ∧
    Confused sim.entity ⟨1, ["Position"]⟩ ⟨2, ["Position"]⟩ ∧
    Confused g.entity ⟨1, ["Position"]⟩ ⟨2, ["Position"]⟩ ∧
    ¬ NoEntityLost sameComponents.entities sim := by
  refine ⟨_, _, .start .init, rfl, rfl, ⟨_, rfl, rfl⟩, ⟨_, rfl, rfl⟩, fun hlost => ?_⟩
  have hlen := hlost.entities.length_eq
  exact absurd hlen (by decide)

/-- Two definitions with different components. -/
def otherComponents : SimulationDef :=
  ⟨"sim", [⟨1, ["Position"]⟩, ⟨2, ["Speed"]⟩], [], [], ⟨[], []⟩⟩

theorem noEntityLost_other :
    NoEntityLost otherComponents.entities (init "sim" [] otherComponents).start :=
  (noEntityLost_iff (.start .init)).mpr (by decide)

end Simulation
end Bentobox.Sdk
