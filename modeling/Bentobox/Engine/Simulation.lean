import Bentobox.Engine.AttributeMap

/-!
# Building a simulation

The constructor of `Simulation`: it configures the entity index, generates the
identifiers that are unset, creates the components of every entity and numbers the
systems. Identifiers are 32-bit counters that wrap.
-/
namespace Bentobox

def UNSET_ENTITY_ID : EntityId := 0
def UNSET_SYSTEM_ID : UInt32 := 0

/-- The definition of every component name; of two definitions the later one counts. -/
def compDefMap (components : List ComponentDef) : OrderedDict String ComponentDef :=
  components.foldl (fun m c => m.insert c.name c) ∅

/-- The identifiers that are set, last entity first. -/
def configuredIds (entities : List EntityDef) : List EntityId :=
  ((entities.map EntityDef.id).filter (· ≠ UNSET_ENTITY_ID)).reverse

/-- `do entityId = addEntityId(); while (entityId == UNSET_ENTITY_ID)` -/
def EntityIndex.generateId (index : EntityIndex) : EntityId × EntityIndex :=
  if index.addEntityId.1 = UNSET_ENTITY_ID then index.addEntityId.2.generateId
  else index.addEntityId
termination_by if index.nextEntityId = 0 then 1 else 0
decreasing_by
  rename_i h
  have h0 : index.nextEntityId = 0 := h
  simp [EntityIndex.addEntityId, h0]

/-- The loop makes a second round when the counter has wrapped to zero, and no third one. -/
theorem EntityIndex.generateId_eq (index : EntityIndex) :
    index.generateId = if index.nextEntityId = 0 then index.addEntityId.2.addEntityId
      else index.addEntityId := by
  rw [EntityIndex.generateId]
  have h₁ : index.addEntityId.1 = index.nextEntityId := rfl
  split_ifs with h h' h'
  · rw [EntityIndex.generateId, if_neg]
    rw [h₁] at h
    simp [EntityIndex.addEntityId, h', UNSET_ENTITY_ID]
  · exact absurd h h'
  · exact absurd h' h
  · rfl

namespace Stores

/-- Run on the entity index. -/
def onEntityIndex {α : Type} (m : Fallible EntityIndex Fault α) : Fallible Stores Fault α :=
  fun s => ((m s.indexStore.entity).1,
    ⟨s.compStore, ⟨s.indexStore.componentType, (m s.indexStore.entity).2⟩⟩)

/-- Create a component of an entity. -/
def createComponent (defs : OrderedDict String ComponentDef) (entityId : EntityId)
    (compName : String) : Fallible Stores Fault Unit := do
  let compStoreId ← addComponent
    (UserComponent.new compName ((defs.get? compName).getD ComponentDef.default))
  onEntityIndex (EntityIndex.addComponent entityId compStoreId)

/-- The identifier of an entity, generated if it is unset. -/
def entityId (entity : EntityDef) : Fallible Stores Fault EntityId :=
  if entity.id = UNSET_ENTITY_ID then
    onEntityIndex fun index => (.ok index.generateId.1, index.generateId.2)
  else pure entity.id

/-- Give an entity its identifier and its components. -/
def createEntity (defs : OrderedDict String ComponentDef) (entity : EntityDef) :
    Fallible Stores Fault EntityDef := do
  let id ← entityId entity
  Fallible.forEach (createComponent defs id) entity.components
  pure { entity with id := id }

end Stores

/-- The largest identifier in use. -/
def maxSystemId (systems : List SystemDef) : UInt32 :=
  systems.foldl (fun maxId s =>
    if s.id ≠ UNSET_SYSTEM_ID ∧ s.id > maxId then s.id else maxId) 0

/-- Number the systems without an identifier from `maxId` on. -/
def setSystemIds : UInt32 → List SystemDef → List SystemDef
  | _, [] => []
  | maxId, system :: systems =>
    if system.id = UNSET_SYSTEM_ID then
      { system with id := maxId + 1 } :: setSystemIds (maxId + 1) systems
    else system :: setSystemIds maxId systems

/-- The stores before any entity is created. -/
def initialStores (entities : List EntityDef) : Stores :=
  { Stores.new with indexStore :=
      ⟨.new, EntityIndex.new.setEntityIds (configuredIds entities)⟩ }

/-- `Simulation(simDef)`: the definition with all identifiers, and the stores. -/
def Stores.construct (simDef : SimulationDef) : Except Fault (SimulationDef × Stores) :=
  match Fallible.mapEach (Stores.createEntity (compDefMap simDef.components)) simDef.entities
      (initialStores simDef.entities) with
  | (.ok entities, stores) => .ok
      ({ simDef with
          entities := entities
          systems := setSystemIds (maxSystemId simDef.systems) simDef.systems }, stores)
  | (.error e, _) => .error e

end Bentobox
