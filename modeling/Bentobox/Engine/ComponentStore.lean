import Bentobox.Lib.OrderedDict
import Bentobox.Lib.Fallible
import Bentobox.Engine.UserComponent

/-!
# The component store and its indexes

Components live in one `CompVec` for each component type. The indexes map a type
name to its group and an entity to the components attached to it; a component is
found by intersecting the two. The iteration order of the unordered containers of
the source is not specified, and nothing here depends on it.

A function of the source that returns a reference takes the computation run on the
referenced object instead.
-/
namespace Bentobox

/-- `at` of an unordered map or a vector, on a key it does not have. -/
def atFault : Fault := .outOfRange "at"

/-- Components can be marked as deleted. -/
class Component (C : Type) where
  isActive : C → Bool
  deactivate : C → C

instance : Component UserComponent where
  isActive := UserComponent.isActive
  deactivate c := { c with isActive := false }

/-- A group (`CompGroup`) and an identifier in it (`CompId`). -/
abbrev CompStoreId := ℕ × ℕ

/-- A set of components, without order. -/
abbrev ComponentSet := List CompStoreId

/-! ## A vector with stable identifiers -/

structure CompVec (C : Type) where
  lastId : ℕ
  idToIndex : OrderedDict ℕ ℕ
  inactiveCompIdx : List ℕ
  vec : List C
  deriving DecidableEq

namespace CompVec
variable {C : Type} {α : Type}

def new : CompVec C := ⟨0, ∅, [], []⟩

def size (v : CompVec C) : ℕ := v.idToIndex.size

/-- Reuses the slot that has been inactive for longest, if there is one. -/
def addToVec (val : C) : Fallible (CompVec C) Fault ℕ := fun v =>
  match v.inactiveCompIdx with
  | insertIdx :: rest =>
    if insertIdx < v.vec.length then
      (.ok insertIdx, { v with vec := v.vec.set insertIdx val, inactiveCompIdx := rest })
    else (.error atFault, v)
  | [] => (.ok v.vec.length, { v with vec := v.vec ++ [val] })

/-- `idToIndex.insert(make_pair(lastId + 1, insertedIdx))`, then issue that identifier. -/
def insertNextId (insertedIdx : ℕ) : Fallible (CompVec C) Fault ℕ := fun v =>
  (.ok (v.lastId + 1), { v with
    idToIndex := if v.idToIndex.contains (v.lastId + 1) then v.idToIndex
      else v.idToIndex.insert (v.lastId + 1) insertedIdx
    lastId := v.lastId + 1 })

def add (val : C) : Fallible (CompVec C) Fault ℕ := do
  let insertedIdx ← addToVec val
  insertNextId insertedIdx

variable [Component C]

def remove (id : ℕ) : Fallible (CompVec C) Fault Unit := fun v =>
  match v.idToIndex.get? id with
  | none => (.error atFault, v)
  | some index =>
    match v.vec[index]? with
    | none => (.error atFault, v)
    | some comp => (.ok (), { v with
        vec := v.vec.set index (Component.deactivate comp)
        inactiveCompIdx := v.inactiveCompIdx ++ [index]
        idToIndex := v.idToIndex.erase id })

/-- The slot of an identifier with its component, which has to be active. -/
def find (id : ℕ) (v : CompVec C) : Except Fault (ℕ × C) :=
  match v.idToIndex.get? id with
  | none => .error atFault
  | some index =>
    match v.vec[index]? with
    | none => .error atFault
    | some comp =>
      if Component.isActive comp then .ok (index, comp)
      else .error (.outOfRange "compVec::isActiveCheck: component at index is inactive")

/-- `at(id)` -/
def «at» (id : ℕ) (m : Fallible C Fault α) : Fallible (CompVec C) Fault α := fun v =>
  match v.find id with
  | .ok (index, comp) => ((m comp).1, { v with vec := v.vec.set index (m comp).2 })
  | .error e => (.error e, v)

end CompVec

/-! ## The store -/

abbrev ComponentStore := OrderedDict ℕ (CompVec UserComponent)

namespace ComponentStore

def addComponent (c : UserComponent) (group : ℕ) :
    Fallible ComponentStore Fault CompStoreId := fun store =>
  let vec := (store.get? group).getD .new
  (((fun id => (group, id)) <$> (vec.add c).1), store.insert group (vec.add c).2)

def asCompSet (store : ComponentStore) : ComponentSet :=
  store.entries.flatMap fun p => (List.range p.2.size).map fun i => (p.1, i + 1)

end ComponentStore

/-! ## The indexes -/

structure ComponentTypeIndex where
  typeNameGroupMap : OrderedDict String ℕ
  compGroup : ℕ
  deriving DecidableEq

namespace ComponentTypeIndex

def new : ComponentTypeIndex := ⟨∅, 0⟩

def addComponentType (name : String) (index : ComponentTypeIndex) :
    ℕ × ComponentTypeIndex :=
  match index.typeNameGroupMap.get? name with
  | some g => (g, index)
  | none => (index.compGroup,
      ⟨index.typeNameGroupMap.insert name index.compGroup, index.compGroup + 1⟩)

def filterCompType (name : String) (index : ComponentTypeIndex) (compSet : ComponentSet) :
    Except Fault ComponentSet :=
  match index.typeNameGroupMap.get? name with
  | some compIndex => .ok (compSet.filter fun comp => comp.1 = compIndex)
  | none => .error atFault

end ComponentTypeIndex

structure EntityIndex where
  nextEntityId : EntityId
  entityCompMap : OrderedDict EntityId ComponentSet
  deriving DecidableEq

namespace EntityIndex

def new : EntityIndex := ⟨0, ∅⟩

/-- `entityCompMap.emplace(id, {})`, without effect on a key that is present. -/
def emplace (map : OrderedDict EntityId ComponentSet) (id : EntityId) :
    OrderedDict EntityId ComponentSet :=
  if map.contains id then map else map.insert id []

def addEntityId (index : EntityIndex) : EntityId × EntityIndex :=
  (index.nextEntityId, ⟨index.nextEntityId + 1, emplace index.entityCompMap index.nextEntityId⟩)

/-- The largest identifier, zero for none. -/
def maxId (ids : List EntityId) : EntityId :=
  ids.foldl (fun maxId id => if id > maxId then id else maxId) 0

def setEntityIds (ids : List EntityId) (index : EntityIndex) : EntityIndex :=
  ⟨maxId ids + 1, ids.foldl emplace index.entityCompMap⟩

def addComponent (entityId : EntityId) (compStoreId : CompStoreId) :
    Fallible EntityIndex Fault Unit := fun index =>
  match index.entityCompMap.get? entityId with
  | some comps => (.ok (), { index with
      entityCompMap := index.entityCompMap.insert entityId (comps.insert compStoreId) })
  | none => (.error atFault, index)

def removeComponent (entityId : EntityId) (compStoreId : CompStoreId) :
    Fallible EntityIndex Fault Unit := fun index =>
  match index.entityCompMap.get? entityId with
  | some comps => (.ok (), { index with
      entityCompMap := index.entityCompMap.insert entityId (comps.erase compStoreId) })
  | none => (.error atFault, index)

def filterEntityId (entityId : EntityId) (index : EntityIndex) (compSet : ComponentSet) :
    Except Fault ComponentSet :=
  match index.entityCompMap.get? entityId with
  | some compStoreIds => .ok (compStoreIds.filter fun comp => comp ∈ compSet)
  | none => .error atFault

end EntityIndex

structure IndexStore where
  componentType : ComponentTypeIndex
  entity : EntityIndex
  deriving DecidableEq

/-- The stores of one simulation. -/
structure Stores where
  compStore : ComponentStore
  indexStore : IndexStore
  deriving DecidableEq

namespace Stores
variable {α : Type}

def new : Stores := ⟨∅, ⟨.new, .new⟩⟩

/-- `ics::addComponent`: put a component into the group of its type. -/
def addComponent (c : UserComponent) : Fallible Stores Fault CompStoreId := fun s =>
  let index := s.indexStore.componentType.addComponentType c.typeName
  let added := s.compStore.addComponent c index.1
  (added.1, ⟨added.2, { s.indexStore with componentType := index.2 }⟩)

/-- The component of a type that is attached to an entity. -/
def findComponent (typeName : String) (entityId : EntityId) (s : Stores) :
    Except Fault CompStoreId := do
  let ofType ← s.indexStore.componentType.filterCompType typeName s.compStore.asCompSet
  let components ← s.indexStore.entity.filterEntityId entityId ofType
  match components with
  | [] => .error (.runtimeError "No component with typeName and entityId found.")
  | [compStoreId] => .ok compStoreId
  | _ => .error (.logicError "More than one component match entity and type.")

/-- `ics::getComponent` -/
def getComponent (typeName : String) (entityId : EntityId)
    (m : Fallible UserComponent Fault α) : Fallible Stores Fault α := fun s =>
  match s.findComponent typeName entityId with
  | .error e => (.error e, s)
  | .ok (group, id) =>
    match s.compStore.get? group with
    | none => (.error atFault, s)
    | some vec =>
      ((vec.at id m).1, { s with compStore := s.compStore.insert group (vec.at id m).2 })

end Stores
end Bentobox
