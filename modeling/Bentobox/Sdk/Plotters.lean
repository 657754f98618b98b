import Mathlib.Data.Finset.Card
import Bentobox.Sdk.Objects

/-!
# The plotter

A plotter makes an object of each entity definition and keeps it under the set of its component
names. All components record in the two dictionaries of the plotter.
-/
namespace Bentobox.Sdk

/-- What is raised where entities are made and looked up. -/
inductive EntityError
  | keyError (key : String)
  | valueError (message : String)
  | runtimeError (message : String)
  | noEntity (components : Finset String)
  deriving DecidableEq

namespace Plot

/-- The dictionaries of the plotter are the cells 0; a new component gets them at once. -/
def GraphComponent.fromDef (entityId : EntityId) (componentDef : ComponentDef) :
    Except EntityError GraphComponent :=
  if componentDef.name = "" then
    .error (.valueError "Cannot construct GraphComponent from ComponentDef with unset name")
  else .ok ⟨entityId, componentDef.name, 0, 0⟩

namespace GraphEntity

def init (components : List GraphComponent) (entityId : EntityId) : GraphEntity where
  entityId := entityId
  componentMap := OrderedDict.index GraphComponent.name id components
  named := by
    intro p hp
    obtain ⟨c, -, hkey, hval⟩ := OrderedDict.get?_index (OrderedDict.get?_eq_some_iff.mpr hp)
    rw [← hval, ← hkey]
    rfl

def fromDef (entityDef : EntityDef) (componentDefs : List ComponentDef) :
    Except EntityError GraphEntity :=
  if entityDef.id = 0 then
    .error (.valueError "Cannot construct GraphEntity from Entity with unset id")
  else do
    let components ← (componentDefs.filter fun c => c.name ∈ entityDef.components).mapM
      (GraphComponent.fromDef entityDef.id)
    return init components entityDef.id

/-- All components record in the dictionaries of the plotter. -/
def OnPlotter (e : GraphEntity) : Prop :=
  ∀ name c, e.componentMap.get? name = some c → c.inputs = 0 ∧ c.outputs = 0

theorem onPlotter_useInputOutputs (e : GraphEntity) : (e.useInputOutputs 0 0).OnPlotter := by
  intro name c hc
  rw [useInputOutputs, OrderedDict.get?_map] at hc
  obtain ⟨c', -, rfl⟩ := Option.map_eq_some_iff.mp hc
  exact ⟨rfl, rfl⟩

end GraphEntity

/-- A plotter with its `entity_map`. -/
structure Plotter where
  entityMap : OrderedDict (Finset String) GraphEntity

namespace Plotter

/-- The object that is made of an entity definition. -/
def graphEntity (componentMap : OrderedDict String ComponentDef) (entityDef : EntityDef) :
    Except EntityError GraphEntity := do
  let componentDefs ← entityDef.components.mapM fun name =>
    match componentMap.get? name with
    | some componentDef => .ok componentDef
    | none => .error (.keyError name)
  let graphEntity ← GraphEntity.fromDef entityDef componentDefs
  return graphEntity.useInputOutputs 0 0

/-- `Plotter.__init__` -/
def init (entityDefs : List EntityDef) (componentDefs : List ComponentDef) :
    Except EntityError Plotter := do
  let componentMap := OrderedDict.index ComponentDef.name id componentDefs
  let entities ← entityDefs.mapM fun entityDef => do
    let e ← graphEntity componentMap entityDef
    return (entityDef.components.toFinset, e)
  return ⟨OrderedDict.index Prod.fst Prod.snd entities⟩

/-- `entity` -/
def entity (g : Plotter) (components : List String) : Except EntityError GraphEntity :=
  if components.toFinset.card ≠ components.length then
    .error (.valueError "Given component names should not contain duplicates")
  else
    match g.entityMap.get? components.toFinset with
    | some e => .ok e
    | none => .error (.noEntity components.toFinset)

/-- The graph of what the dictionaries of the plotter contain. -/
def graph (d : Dictionaries) : Graph := (⟨d.inputs.cell 0, d.outputs.cell 0⟩ : Recorder).graph

/-- The object stands for the definition. -/
structure StandsFor (entityDef : EntityDef) (p : Finset String × GraphEntity) : Prop where
  components : p.1 = entityDef.components.toFinset
  entityId : p.2.entityId = entityDef.id
  onPlotter : p.2.OnPlotter

theorem graphEntity_eq_ok {componentMap : OrderedDict String ComponentDef} {entityDef : EntityDef}
    {e : GraphEntity} (h : graphEntity componentMap entityDef = .ok e) :
    StandsFor entityDef (entityDef.components.toFinset, e) := by
  obtain ⟨componentDefs, -, h⟩ := Fallible.result_bind_eq_ok_iff.mp h
  obtain ⟨e', he', h⟩ := Fallible.result_bind_eq_ok_iff.mp h
  cases h
  refine ⟨rfl, ?_, e'.onPlotter_useInputOutputs⟩
  rw [GraphEntity.fromDef] at he'
  split at he'
  · cases he'
  · obtain ⟨components, -, h⟩ := Fallible.result_bind_eq_ok_iff.mp he'
    cases h
    rfl

/-- A plotter has indexed one object for each definition. -/
theorem init_eq_ok {entityDefs : List EntityDef} {componentDefs : List ComponentDef} {g : Plotter}
    (h : init entityDefs componentDefs = .ok g) : ∃ entities,
      g.entityMap = OrderedDict.index Prod.fst Prod.snd entities ∧
        List.Forall₂ StandsFor entityDefs entities := by
  obtain ⟨entities, hentities, h⟩ := Fallible.result_bind_eq_ok_iff.mp h
  cases h
  refine ⟨entities, rfl, List.Forall₂.imp (fun entityDef p hp => ?_)
    (Fallible.mapM_eq_ok hentities)⟩
  obtain ⟨e, he, hp⟩ := Fallible.result_bind_eq_ok_iff.mp hp
  cases hp
  exact graphEntity_eq_ok he

/-- An entity that is found stands for a definition with the given components. -/
theorem entity_eq_ok {entityDefs : List EntityDef} {componentDefs : List ComponentDef} {g : Plotter}
    (h : init entityDefs componentDefs = .ok g) {components : List String} {e : GraphEntity}
    (he : g.entity components = .ok e) :
    ∃ entityDef ∈ entityDefs, StandsFor entityDef (components.toFinset, e) := by
  obtain ⟨entities, hmap, hall⟩ := init_eq_ok h
  rw [entity, hmap] at he
  split at he
  · cases he
  · split at he
    next e' hget =>
      cases he
      obtain ⟨p, hp, hkey, hval⟩ := OrderedDict.get?_index hget
      obtain ⟨i, hi, rfl⟩ := List.getElem_of_mem hp
      have hlen := hall.length_eq
      refine ⟨entityDefs[i], List.getElem_mem _, ?_⟩
      rw [← hkey, ← hval]
      exact (List.forall₂_iff_get.mp hall).2 i (hlen ▸ hi) hi
    next => cases he

/-- Lists that are related by position are searched alike. -/
theorem find?_of_forall₂ {α β : Type} {R : α → β → Prop} {p : α → Bool} {q : β → Bool}
    (hpq : ∀ a b, R a b → p a = q b) {as : List α} {bs : List β} (h : List.Forall₂ R as bs)
    {a : α} (ha : as.find? p = some a) : ∃ b, bs.find? q = some b ∧ R a b := by
  induction h with
  | nil => cases ha
  | @cons x y as bs hxy _ ih =>
    cases hp : p x with
    | true =>
      rw [List.find?_cons_of_pos hp] at ha
      cases ha
      exact ⟨y, List.find?_cons_of_pos (hpq _ _ hxy ▸ hp), hxy⟩
    | false =>
      rw [List.find?_cons_of_neg (by simp [hp])] at ha
      rw [List.find?_cons_of_neg (by simp [← hpq x y hxy, hp])]
      exact ih ha

/-- The object of a definition has the components of the definition. -/
theorem mem_keys_graphEntity {componentDefs : List ComponentDef} {entityDef : EntityDef}
    {e : GraphEntity}
    (h : graphEntity (OrderedDict.index ComponentDef.name id componentDefs) entityDef = .ok e)
    (name : String) : name ∈ e.componentMap.keys ↔ name ∈ entityDef.components := by
  obtain ⟨defs, hdefs, h⟩ := Fallible.result_bind_eq_ok_iff.mp h
  obtain ⟨e', he', h⟩ := Fallible.result_bind_eq_ok_iff.mp h
  cases h
  have hnames : defs.map ComponentDef.name = entityDef.components := by
    refine (List.forall₂_eq_eq_eq ▸ List.forall₂_map_left_iff.mpr
      ((Fallible.mapM_eq_ok hdefs).flip.imp fun c name hc => ?_))
    split at hc
    next c' hget =>
      cases hc
      obtain ⟨c'', -, hname, rfl⟩ := OrderedDict.get?_index hget
      exact hname
    next => cases hc
  rw [GraphEntity.fromDef] at he'
  split at he'
  · cases he'
  · obtain ⟨components, hcomponents, h⟩ := Fallible.result_bind_eq_ok_iff.mp he'
    cases h
    have hall : (defs.filter fun c => c.name ∈ entityDef.components) = defs :=
      List.filter_eq_self.mpr fun c hc => by
        rw [← hnames]
        exact decide_eq_true (List.mem_map_of_mem hc)
    rw [hall] at hcomponents
    have hkeys : components.map GraphComponent.name = defs.map ComponentDef.name := by
      refine (List.forall₂_eq_eq_eq ▸ List.forall₂_map_left_iff.mpr
        (List.forall₂_map_right_iff.mpr ((Fallible.mapM_eq_ok hcomponents).flip.imp
          fun c d hd => ?_)))
      rw [GraphComponent.fromDef] at hd
      split at hd
      · cases hd
      · cases hd
        rfl
    rw [GraphEntity.useInputOutputs, OrderedDict.keys_map, GraphEntity.init,
      OrderedDict.mem_keys_index, hkeys, hnames]

/-- What is found is the object of the last definition with the given components. -/
theorem find?_of_entity {entityDefs : List EntityDef} {componentDefs : List ComponentDef}
    {g : Plotter} (h : init entityDefs componentDefs = .ok g) {components : List String}
    {e : GraphEntity} (he : g.entity components = .ok e) : ∃ entityDef,
      (entityDefs.reverse.find? fun d => decide (d.components.toFinset = components.toFinset)) =
        some entityDef ∧ e.entityId = entityDef.id ∧
      ∀ name, name ∈ e.componentMap.keys ↔ name ∈ entityDef.components := by
  obtain ⟨entities, hentities, h⟩ := Fallible.result_bind_eq_ok_iff.mp h
  cases h
  have hall : List.Forall₂ (fun (p : Finset String × GraphEntity) (d : EntityDef) =>
      p.1 = d.components.toFinset ∧ p.2.entityId = d.id ∧
        ∀ name, name ∈ p.2.componentMap.keys ↔ name ∈ d.components) entities entityDefs := by
    refine (Fallible.mapM_eq_ok hentities).flip.imp fun p d hp => ?_
    obtain ⟨e, he, hp⟩ := Fallible.result_bind_eq_ok_iff.mp hp
    cases hp
    exact ⟨rfl, (graphEntity_eq_ok he).entityId, mem_keys_graphEntity he⟩
  rw [entity] at he
  split at he
  · cases he
  · split at he
    next e' hget =>
      cases he
      rw [OrderedDict.get?_index_eq] at hget
      obtain ⟨p, hp, rfl⟩ := Option.map_eq_some_iff.mp hget
      obtain ⟨d, hd, -, hid, hnames⟩ := find?_of_forall₂
        (q := fun d => decide (d.components.toFinset = components.toFinset))
        (fun p d hp => by rw [hp.1]) (List.forall₂_reverse_iff.mpr hall) hp
      exact ⟨d, hd, hid, hnames⟩
    next => cases he

end Plotter
end Plot
end Bentobox.Sdk
