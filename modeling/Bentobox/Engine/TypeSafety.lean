import Bentobox.Engine.Exactness
import Bentobox.Engine.Reapplication
import Bentobox.Engine.Typing

/-!
# Well-typed simulations do not fail

A definition is well typed when each of its outputs has a type that the attribute it is
stored in takes, and reads only attributes that an earlier output, or the initial graph,
has assigned. Then no step of the simulation fails, up to the partial operations: the
checks that the engine makes while it evaluates all succeed, whatever was written to the
attributes in between.
-/
namespace Bentobox

open AttributeStore SimulationStore

/-! ## Definitions -/

/-- The type of an attribute of the simulation, if it is a native one. -/
def SimulationDef.attributeType (d : SimulationDef) (ref : AttributeRef) : Option TypePrimitive :=
  if ∃ e ∈ d.entities, e.id = ref.entityId ∧ ref.component ∈ e.components then
    match d.declaredType ref with
    | some (.primitive t) => if t ∈ anyTypes then some t else none
    | _ => none
  else none

/-- A value of the type `given` may be stored in an attribute of the type `declared`. -/
def assignable (declared given : TypePrimitive) : Bool :=
  declared = given || (declared ∈ numericTypes && given ∈ numericTypes)

theorem assignable_iff {declared given : TypePrimitive} : assignable declared given = true ↔
    declared = given ∨ declared ∈ numericTypes ∧ given ∈ numericTypes := by
  simp only [assignable, Bool.or_eq_true, Bool.and_eq_true, decide_eq_true_eq]

/-- Storing it is defined for all values. -/
def assignTotal (declared given : TypePrimitive) : Bool :=
  !(declared ∈ [TypePrimitive.int32, .int64] && given ∈ [TypePrimitive.float32, .float64])

namespace Mutate
variable (Γ : AttributeRef → Option TypePrimitive)

/-- The output reads assigned attributes, and stores a value where its type is taken. -/
def wellTyped (assigned : List AttributeRef) (o : Mutate) : Bool :=
  o.toNode.retrieves.all (· ∈ assigned) &&
    match o.toNode.typeOf Γ, Γ o.mutateAttr with
    | some given, some declared => assignable declared given
    | _, _ => false

/-- The output does nothing that is partial. -/
def total (o : Mutate) : Bool :=
  o.toNode.total Γ &&
    match o.toNode.typeOf Γ, Γ o.mutateAttr with
    | some given, some declared => assignTotal declared given
    | _, _ => false

end Mutate

/-- Outputs that run one after another, each of which assigns its attribute. -/
def wellTypedOutputs (Γ : AttributeRef → Option TypePrimitive) :
    List AttributeRef → List Mutate → Bool
  | _, [] => true
  | assigned, o :: outputs =>
    o.wellTyped Γ assigned && wellTypedOutputs Γ (o.mutateAttr :: assigned) outputs

namespace SimulationDef

/-- The attributes that the initial graph assigns. -/
def initialized (d : SimulationDef) : List AttributeRef :=
  d.initGraph.outputs.map Mutate.mutateAttr

/-- The components can be told apart, and all outputs are well typed. -/
structure WellTyped (d : SimulationDef) : Prop where
  ids : (d.entities.map EntityDef.id).Nodup
  names : ∀ e ∈ d.entities, e.components.Nodup
  initGraph : wellTypedOutputs d.attributeType [] d.initGraph.outputs = true
  systems : wellTypedOutputs d.attributeType d.initialized (outputsOf d.systems) = true

instance (d : SimulationDef) : Decidable d.WellTyped :=
  decidable_of_iff ((d.entities.map EntityDef.id).Nodup ∧ (∀ e ∈ d.entities, e.components.Nodup) ∧
      wellTypedOutputs d.attributeType [] d.initGraph.outputs = true ∧
      wellTypedOutputs d.attributeType d.initialized (outputsOf d.systems) = true)
    ⟨fun ⟨h₁, h₂, h₃, h₄⟩ => ⟨h₁, h₂, h₃, h₄⟩, fun ⟨h₁, h₂, h₃, h₄⟩ => ⟨h₁, h₂, h₃, h₄⟩⟩

/-- Nothing in the definition is partial. -/
def total (d : SimulationDef) : Bool :=
  (d.initGraph.outputs ++ outputsOf d.systems).all (Mutate.total d.attributeType)

end SimulationDef

theorem wellTypedOutputs_append {Γ : AttributeRef → Option TypePrimitive}
    {assigned : List AttributeRef} {os os' : List Mutate} :
    wellTypedOutputs Γ assigned (os ++ os') = true ↔ wellTypedOutputs Γ assigned os = true ∧
      wellTypedOutputs Γ ((os.map Mutate.mutateAttr).reverse ++ assigned) os' = true := by
  induction os generalizing assigned with
  | nil => simp [wellTypedOutputs]
  | cons o os ih =>
    simp only [List.cons_append, wellTypedOutputs, Bool.and_eq_true, ih, List.map_cons,
      List.reverse_cons, List.append_assoc, List.cons_append, List.nil_append, and_assoc]

/-! ## Typed maps -/

namespace AttributeMap
variable (F : FloatOps)

/-- The attributes of native types can be found, and their values have these types. -/
structure Typed (d : SimulationDef) (m : AttributeMap) : Prop where
  located : ∀ ref t, d.attributeType ref = some t → ∃ cd,
    m.layout ref.component ref.entityId = .ok cd ∧
      cd.schema.get? ref.attributeName = some (.primitive t)
  typed : ∀ ref v t, m.value ref = some v → d.attributeType ref = some t → v.HasType t

/-- The attributes have a value. -/
def Assigned (refs : List AttributeRef) (m : AttributeMap) : Prop :=
  ∀ ref ∈ refs, (m.value ref).isSome = true

end AttributeMap

theorem SimulationDef.attributeType_eq_some {d : SimulationDef} {ref : AttributeRef}
    {t : TypePrimitive} (h : d.attributeType ref = some t) :
    (∃ e ∈ d.entities, e.id = ref.entityId ∧ ref.component ∈ e.components) ∧
      d.declaredType ref = some (.primitive t) ∧ t ∈ anyTypes := by
  rw [attributeType] at h
  split_ifs at h with hlisted
  split at h
  next u hu =>
    split_ifs at h with hany
    cases h
    exact ⟨hlisted, hu, hany⟩
  next => cases h

/-- A stored value has the type of its attribute. -/
theorem hasType_of_storedValue {F : FloatOps} {cd : ComponentDef} {a : String} {v w : Value}
    {t : TypePrimitive} (h : UserComponent.storedValue F cd a v = .ok w)
    (ht : cd.schema.get? a = some (.primitive t)) : w.HasType t := by
  obtain ⟨s, rfl⟩ := Value.wellFormed_iff.mp (UserComponent.wellFormed_of_storedValue F h)
  obtain ⟨hdata, -⟩ := (storedValue_conforms_iff h ht).mpr rfl
  cases hdata
  exact ⟨s, rfl, rfl⟩

/-- A number is cast to a numeric type, or the cast is not defined. -/
theorem convert_cases (F : FloatOps) {declared : TypePrimitive} (h : declared ∈ numericTypes)
    (n : Number) : (∃ s, UserComponent.convert F n declared = .ok s) ∨
      UserComponent.convert F n declared = .error .undefined ∧
        assignTotal declared n.type = false := by
  have htoInt : ∀ {v : ℕ} (f : FloatFormat v) (w : ℕ) (x : BitVec v),
      (∃ z, f.toInt w x = .ok z) ∨ f.toInt w x = .error .undefined := by
    intro v f w x
    rw [FloatFormat.toInt]
    split
    · rw [checked]
      split_ifs
      · exact .inl ⟨_, rfl⟩
      · exact .inr rfl
    · exact .inr rfl
  cases declared with
  | int32 =>
    cases n with
    | int32 x | int64 x => exact .inl ⟨_, rfl⟩
    | float32 x =>
      rcases htoInt F.f32 32 x with ⟨z, hz⟩ | hz <;>
        simp only [UserComponent.convert, Number.toInt32, hz]
      · exact .inl ⟨_, rfl⟩
      · exact .inr ⟨rfl, rfl⟩
    | float64 x =>
      rcases htoInt F.f64 32 x with ⟨z, hz⟩ | hz <;>
        simp only [UserComponent.convert, Number.toInt32, hz]
      · exact .inl ⟨_, rfl⟩
      · exact .inr ⟨rfl, rfl⟩
  | int64 =>
    cases n with
    | int32 x | int64 x => exact .inl ⟨_, rfl⟩
    | float32 x =>
      rcases htoInt F.f32 64 x with ⟨z, hz⟩ | hz <;>
        simp only [UserComponent.convert, Number.toInt64, hz]
      · exact .inl ⟨_, rfl⟩
      · exact .inr ⟨rfl, rfl⟩
    | float64 x =>
      rcases htoInt F.f64 64 x with ⟨z, hz⟩ | hz <;>
        simp only [UserComponent.convert, Number.toInt64, hz]
      · exact .inl ⟨_, rfl⟩
      · exact .inr ⟨rfl, rfl⟩
  | float32 | float64 => exact .inl ⟨_, rfl⟩
  | _ => simp [numericTypes] at h

/-- A value of a type that the attribute takes is stored, or its cast is not defined. -/
theorem storedValue_typed (F : FloatOps) {cd : ComponentDef} {a : String}
    {declared : TypePrimitive} {x : Scalar} (ht : cd.schema.get? a = some (.primitive declared))
    (hx : assignable declared x.type = true) :
    (∃ w, UserComponent.storedValue F cd a (setVal x) = .ok w) ∨
      UserComponent.storedValue F cd a (setVal x) = .error .undefined ∧
        assignTotal declared x.type = false := by
  have hcheck : UserComponent.checkValue cd a (setVal x) = .ok (.primitive declared) :=
    UserComponent.checkValue_eq_ok_iff.mpr ⟨ht, x, rfl⟩
  rw [UserComponent.storedValue, hcheck, Fallible.ok_bind, UserComponent.valueToSet,
    if_neg (by simp [DataType.hasArray]), DataType.getPrimitive, Value.getVal?_setVal]
  rcases x with n | s | b
  · by_cases hnum : declared ∈ numericTypes
    · rw [if_pos ⟨hnum, rfl⟩]
      have hrun : runFnWithVal Scalar.number? (setVal (.number n)) (fun n =>
          runFnWithValType numericTypes (.primitive declared) (UserComponent.convert F n)) =
          UserComponent.convert F n declared := by
        simp [runFnWithVal, Scalar.number?, runFnWithValType, DataType.hasArray,
          DataType.getPrimitive, hnum]
      rw [hrun]
      rcases convert_cases F hnum n with ⟨s, hs⟩ | ⟨hu, htotal⟩
      · exact .inl ⟨_, by rw [hs]; rfl⟩
      · exact .inr ⟨by rw [hu]; rfl, htotal⟩
    · rw [if_neg fun h => hnum h.1]
      rcases assignable_iff.mp hx with heq | h
      · exact absurd (heq ▸ n.type_mem_numericTypes) hnum
      · exact absurd h.1 hnum
  · rcases assignable_iff.mp hx with rfl | h
    · exact .inl ⟨_, rfl⟩
    · simp [Scalar.type, numericTypes] at h
  · rcases assignable_iff.mp hx with rfl | h
    · exact .inl ⟨_, rfl⟩
    · simp [Scalar.type, numericTypes] at h

namespace AttributeMap
variable {F : FloatOps} {d : SimulationDef} {m : AttributeMap}

/-- Whatever is accepted by an attribute keeps the map typed. -/
theorem Typed.set (hm : m.Typed d) {ref : AttributeRef} {v w : Value}
    (h : m.converted F ref v = .ok w) : (m.set ref w).Typed d := by
  refine ⟨hm.located, fun r u t hu ht => ?_⟩
  by_cases hr : r = ref
  · subst hr
    rw [value_set_self] at hu
    cases hu
    obtain ⟨cd, hlayout, hschema⟩ := hm.located r t ht
    rw [converted, hlayout, Fallible.ok_bind] at h
    exact hasType_of_storedValue h hschema
  · rw [value_set_ne m hr] at hu
    exact hm.typed r u t hu ht

theorem Assigned.set {refs : List AttributeRef} (h : m.Assigned refs) (ref : AttributeRef)
    (w : Value) : (m.set ref w).Assigned (ref :: refs) := by
  intro r hr
  by_cases href : r = ref
  · subst href
    rw [value_set_self]
    rfl
  · rw [value_set_ne m href]
    exact h r ((List.mem_cons.mp hr).resolve_left href)

theorem Assigned.mono {refs refs' : List AttributeRef} (h : m.Assigned refs)
    (hsub : refs' ⊆ refs) : m.Assigned refs' := fun r hr => h r (hsub hr)

/-- An assigned attribute can be read. -/
theorem Typed.hasAttribute (hm : m.Typed d) {refs : List AttributeRef} (h : m.Assigned refs)
    {ref : AttributeRef} (href : ref ∈ refs) : m.HasAttribute d.attributeType ref := by
  intro t ht
  obtain ⟨cd, hlayout, -⟩ := hm.located ref t ht
  obtain ⟨v, hv⟩ := Option.isSome_iff_exists.mp (h ref href)
  exact ⟨v, by rw [get, hlayout, Fallible.ok_bind, hv, orNotSet], hm.typed ref v t hv ht⟩

/-- **A well-typed output** is stored, or it is partial. -/
theorem Typed.mutateOp (hm : m.Typed d) {assigned : List AttributeRef} (ha : m.Assigned assigned)
    {o : Mutate} (ho : o.wellTyped d.attributeType assigned = true) (gen : ℕ) :
    (∃ s, Bentobox.mutateOp F o ⟨m, gen⟩ = (.ok (), s) ∧ s.store.Typed d ∧
      s.store.Assigned (o.mutateAttr :: assigned)) ∨
    ∃ x s, Bentobox.mutateOp F o ⟨m, gen⟩ = (.error x, s) ∧ x.Partial ∧
      o.total d.attributeType = false ∧ s.store = m := by
  rw [Mutate.wellTyped, Bool.and_eq_true, List.all_eq_true] at ho
  obtain ⟨hreads, ho⟩ := ho
  cases hgiven : o.toNode.typeOf d.attributeType with
  | none => rw [hgiven] at ho; cases ho
  | some given =>
    cases hdeclared : d.attributeType o.mutateAttr with
    | none => rw [hgiven, hdeclared] at ho; cases ho
    | some declared =>
      rw [hgiven, hdeclared] at ho
      have hread : ∀ ref ∈ o.toNode.retrieves, m.HasAttribute d.attributeType ref :=
        fun ref href => hm.hasAttribute ha (of_decide_eq_true (hreads ref href))
      have hstore := evaluateNode_store F o.toNode ⟨m, gen⟩
      have htyped := @evaluateNode_typed F _ _ _ hgiven ⟨m, gen⟩ hread
      rcases hev : evaluateNode F o.toNode (⟨m, gen⟩ : Env AttributeMap) with ⟨x | v, ⟨m', gen'⟩⟩
      · rw [hev] at htyped hstore
        obtain rfl : m = m' := hstore.symm
        rcases htyped with ⟨v, hv, -⟩ | ⟨y, hy, hstopped, htotal⟩
        · cases hv
        · cases hy
          refine .inr ⟨x, _, Fallible.run_bind_of_error hev, hstopped, ?_, rfl⟩
          rw [Mutate.total, htotal, Bool.false_and]
      · rw [hev] at htyped hstore
        obtain rfl : m = m' := hstore.symm
        rcases htyped with ⟨v', hv, x, rfl, rfl⟩ | ⟨y, hy, -⟩
        · cases hv
          obtain ⟨cd, hlayout, hschema⟩ := hm.located _ _ hdeclared
          have hconv : m.converted F o.mutateAttr (setVal x) =
              UserComponent.storedValue F cd o.mutateAttr.attributeName (setVal x) := by
            rw [converted, hlayout, Fallible.ok_bind]
          have hrun : Bentobox.mutateOp F o ⟨m, gen⟩ = _ :=
            (Fallible.run_bind_of_ok hev).trans (onStore_assign F _ _ _)
          rcases storedValue_typed F hschema ho with ⟨w, hw⟩ | ⟨hu, htotal⟩
          · rw [hconv, hw] at hrun
            exact .inl ⟨_, hrun, hm.set (hconv.trans hw), ha.set _ w⟩
          · rw [hconv, hu] at hrun
            refine .inr ⟨_, _, hrun, .undefined, ?_, rfl⟩
            simp only [Mutate.total, hgiven, hdeclared, htotal, Bool.and_false]
        · cases hy

/-- **Well-typed outputs** all run, or they stop at one that is partial. -/
theorem Typed.forEach {assigned : List AttributeRef} {os : List Mutate}
    (hos : wellTypedOutputs d.attributeType assigned os = true) {s : Env AttributeMap}
    (hs : s.store.Typed d) (ha : s.store.Assigned assigned) :
    (∃ s', Fallible.forEach (Bentobox.mutateOp F) os s = (.ok (), s') ∧ s'.store.Typed d ∧
      s'.store.Assigned ((os.map Mutate.mutateAttr).reverse ++ assigned)) ∨
    ∃ x s', Fallible.forEach (Bentobox.mutateOp F) os s = (.error x, s') ∧ x.Partial ∧
      os.all (Mutate.total d.attributeType) = false ∧ s'.store.Typed d ∧
      s'.store.Assigned assigned := by
  induction os generalizing assigned s with
  | nil => exact .inl ⟨s, rfl, hs, ha⟩
  | cons o os ih =>
    rw [wellTypedOutputs, Bool.and_eq_true] at hos
    rcases @Typed.mutateOp F d s.store hs assigned ha o hos.1 s.gen with
      ⟨s₁, hrun, hs₁, ha₁⟩ | ⟨x, s₁, hrun, hstopped, htotal, hstore⟩
    · rcases ih hos.2 hs₁ ha₁ with
        ⟨s', hrest, hs', ha'⟩ | ⟨x, s', hrest, hstopped, htotal, hs', ha'⟩
      · refine .inl ⟨s', (Fallible.run_bind_of_ok hrun).trans hrest, hs', ?_⟩
        rwa [List.map_cons, List.reverse_cons, List.append_assoc]
      · refine .inr ⟨x, s', (Fallible.run_bind_of_ok hrun).trans hrest, hstopped, ?_, hs',
          ha'.mono (List.subset_cons_self _ _)⟩
        rw [List.all_cons, htotal, Bool.and_false]
    · refine .inr ⟨x, s₁, Fallible.run_bind_of_error hrun, hstopped, ?_, hstore ▸ hs, hstore ▸ ha⟩
      rw [List.all_cons, htotal, Bool.false_and]

/-- Any output at all keeps the map typed and its attributes assigned. -/
theorem typed_keeps (d : SimulationDef) (refs : List AttributeRef) (o : Mutate) :
    Fallible.Keeps (fun s : Env AttributeMap => s.store.Typed d ∧ s.store.Assigned refs)
      (Bentobox.mutateOp F o) := by
  intro s hs
  rcases hrun : Bentobox.mutateOp F o s with ⟨x | ⟨⟩, s'⟩
  · rw [mutateOp_error_store F hrun]
    exact hs
  · obtain ⟨v, w, gen, -, hw, rfl⟩ := (mutateOp_eq_ok_iff F).mp hrun
    exact ⟨hs.1.set hw, (hs.2.set _ w).mono (List.subset_cons_self _ _)⟩

/-- **Well-typed systems** all run, or one of them stops at an output that is partial. -/
theorem Typed.runSystems {assigned : List AttributeRef} {systems : List SystemDef}
    (hsystems : wellTypedOutputs d.attributeType assigned (outputsOf systems) = true)
    {s : Env AttributeMap} (hs : s.store.Typed d) (ha : s.store.Assigned assigned) :
    (∃ s', Engine.runSystems F systems s = (.ok (), s')) ∨
    ∃ system ∈ systems, ∃ x s', x.Partial ∧
      Engine.runSystems F systems s = (.error (Fault.describe ("Something went wrong while " ++
        "running system with ID: " ++ toString system.id ++ ".") x), s') ∧
      (outputsOf systems).all (Mutate.total d.attributeType) = false := by
  induction systems generalizing assigned s with
  | nil => exact .inl ⟨s, rfl⟩
  | cons system systems ih =>
    have hout : outputsOf (system :: systems) = system.graph.outputs ++ outputsOf systems := rfl
    rw [hout] at hsystems ⊢
    obtain ⟨hfirst, hrest⟩ := wellTypedOutputs_append.mp hsystems
    rcases @Typed.forEach F d assigned _ hfirst s hs ha with
      ⟨s₁, hrun, hs₁, ha₁⟩ | ⟨x, s₁, hrun, hstopped, htotal, -⟩
    · have hsystem : Engine.runSystem F system s = (.ok (), s₁) :=
        Fallible.mapFault_eq_ok_iff.mpr hrun
      rcases ih hrest hs₁ ha₁ with ⟨s', hok⟩ | ⟨system', hmem, x, s', hstopped, herr, htotal⟩
      · exact .inl ⟨s', (Fallible.run_bind_of_ok hsystem).trans hok⟩
      · refine .inr ⟨system', List.mem_cons_of_mem _ hmem, x, s', hstopped,
          (Fallible.run_bind_of_ok hsystem).trans herr, ?_⟩
        rw [List.all_append, htotal, Bool.and_false]
    · refine .inr ⟨system, List.mem_cons_self, x, s₁, hstopped,
        Fallible.run_bind_of_error (Fallible.mapFault_eq_error_iff.mpr ⟨x, hrun, rfl⟩), ?_⟩
      rw [List.all_append, htotal, Bool.false_and]

end AttributeMap

/-! ## Runs of the engine -/

namespace Stores

theorem component_of_location {s : Stores} {n : String} {e : EntityId} {l : ℕ × ℕ}
    (h : s.location n e = .ok l) : ∃ c, s.component n e = .ok c := by
  obtain ⟨id, hid, hslot⟩ := Fallible.result_bind_eq_ok_iff.mp h
  rw [slot] at hslot
  cases hv : s.compStore.get? id.1 with
  | none => rw [hv] at hslot; cases hslot
  | some v =>
    rw [hv] at hslot
    obtain ⟨p, hp, -⟩ := Fallible.map_eq_ok_iff.mp hslot
    exact ⟨p.2, by simp only [component, hid, Fallible.ok_bind, hv, hp, Fallible.map_ok]⟩

/-- **A new simulation is typed.** -/
theorem typed_of_construct {d : SimulationDef} (hd : d.withIds.WellTyped) : ∃ stores,
    construct d = .ok (d.withIds, stores) ∧ stores.Wf ∧ stores.view.Typed d.withIds := by
  obtain ⟨created, stores, -, hcon, hs, hr, hkeys⟩ := constructRecorded_spec d
  have hnodup : (created.map Prod.fst).Nodup := by
    rw [hkeys]
    exact nodup_listedPairs hd.ids hd.names
  refine ⟨stores, hcon, hs.wf, fun ref t ht => ?_, fun ref v t hv _ => ?_⟩
  · obtain ⟨⟨e, he, hid, hc⟩, hdeclared, -⟩ := SimulationDef.attributeType_eq_some ht
    have hpair : (ref.entityId, ref.component) ∈ created.map Prod.fst := by
      rw [hkeys, ← hid]
      exact List.mem_flatMap.mpr ⟨e, he, List.mem_map.mpr ⟨_, hc, rfl⟩⟩
    obtain ⟨⟨p, id⟩, hmem, rfl⟩ := List.mem_map.mp hpair
    have hloc : stores.location ref.component ref.entityId = .ok (id.1, id.2 - 1) := by
      rw [location, hr.findComponent_of_mem hs hnodup hmem, Fallible.ok_bind]
      exact hr.slot_of_mem hs hmem
    obtain ⟨c, hcomp⟩ := component_of_location hloc
    have hlayout : stores.view.layout ref.component ref.entityId = .ok c.compDef := by
      simp only [view, hcomp, Fallible.map_ok]
    refine ⟨c.compDef, hlayout, ?_⟩
    rw [hs.layout_eq hlayout]
    exact hdeclared
  · rw [hs.value_eq_none ref] at hv
    cases hv

end Stores
namespace Engine
variable {F : FloatOps}

/-- The simulation has the definition, and its initialized attributes have typed values. -/
def Runs (d : SimulationDef) (e : Engine AttributeMap) : Prop :=
  ∃ sim, e.sims.get? d.name = some sim ∧ sim.simDef = d ∧ sim.store.Typed d ∧
    sim.store.Assigned d.initialized

/-- The request may drop the simulation or replace it. -/
def Replaces (name : String) : Request → Prop
  | .applySimulation d => d.name = name
  | .dropSimulation name' => name' = name
  | _ => False

/-- What ran on a typed simulation left it typed. -/
theorem runs_runOn {α : Type} {m : Eval AttributeMap α} {d : SimulationDef}
    (hm : Fallible.Keeps (fun s : Env AttributeMap => s.store.Typed d ∧
      s.store.Assigned d.initialized) m)
    {sim : Simulation AttributeMap} (hdef : sim.simDef = d) (hs : sim.store.Typed d)
    (ha : sim.store.Assigned d.initialized) (e : Engine AttributeMap) :
    Runs d (runOn m d.name sim e).2 := by
  obtain ⟨hs', ha'⟩ := hm ⟨sim.store, e.gen⟩ ⟨hs, ha⟩
  exact ⟨_, OrderedDict.get?_insert_self _ _ _, hdef, hs', ha'⟩

/-- What ran on another simulation did not touch this one. -/
theorem Runs.runOn_ne {α : Type} {m : Eval AttributeMap α} {d : SimulationDef} {name : String}
    (hne : d.name ≠ name) {e : Engine AttributeMap} (he : Runs d e)
    (sim : Simulation AttributeMap) : Runs d (runOn m name sim e).2 := by
  obtain ⟨sim₀, hget, h⟩ := he
  refine ⟨sim₀, ?_, h⟩
  simp only [runOn, register, OrderedDict.get?_insert, if_neg hne, hget]

/-- **A request that does not replace the simulation** keeps its values typed. -/
theorem Runs.step {d : SimulationDef} {e e' : Engine AttributeMap} (he : Runs d e) {r : Request}
    {o : Response} (hr : ¬ Replaces d.name r) (h : Engine.step F e r = some (o, e')) :
    Runs d e' := by
  have hkeeps := AttributeMap.typed_keeps (F := F) d d.initialized
  -- a handler that runs on one registered simulation
  have hrun : ∀ {α : Type} {m : Eval AttributeMap α} {name : String}
      {sim : Simulation AttributeMap} (locked : Bool), e.sims.get? name = some sim →
      Fallible.Keeps (fun s : Env AttributeMap => s.store.Typed d ∧
        s.store.Assigned d.initialized) m →
      Runs d (runOn m name { sim with locked := locked } e).2 := by
    intro α m name sim locked hs hm
    by_cases hname : d.name = name
    · subst hname
      obtain ⟨sim₀, hget, hdef, htyped, hassigned⟩ := he
      rw [hs] at hget
      cases hget
      exact @runs_runOn _ _ d hm { sim with locked := locked } hdef htyped hassigned e
    · exact he.runOn_ne hname _
  cases step_transition F h with
  | idle _ => exact he
  | created _ _ => exact he.runOn_ne (Ne.symm hr) _
  | dropped hs =>
    obtain ⟨sim₀, hget, hsim⟩ := he
    exact ⟨sim₀, by rw [OrderedDict.get?_erase, if_neg (Ne.symm hr), hget], hsim⟩
  | @stepped name sim hs =>
    refine hrun true hs fun s hs' => ?_
    rw [runSystems_state]
    exact Fallible.Keeps.forEach (fun o _ => hkeeps o) s hs'
  | @retrieved name attr sim hs => exact hrun sim.locked hs fun s hs' => hs'
  | @assigned name attr value sim hs => exact hrun sim.locked hs (hkeeps _)

/-- A reply that a partial operation is at the bottom of. -/
def PartialReply (message : String) (o : Response) : Prop :=
  ∃ x, (Fault.exception x).Partial ∧ o = .error .internal (formatError message x)

/-- The initial graph of a well-typed definition runs, and leaves its attributes assigned. -/
theorem initGraph_typed {d : SimulationDef} (hd : d.WellTyped) {m : AttributeMap}
    (hm : m.Typed d) (gen : ℕ) :
    (∃ s, runGraph F d.initGraph (⟨m, gen⟩ : Env AttributeMap) = (.ok (), s) ∧ s.store.Typed d ∧
      s.store.Assigned d.initialized) ∨
    ∃ x s, runGraph F d.initGraph (⟨m, gen⟩ : Env AttributeMap) = (.error x, s) ∧ x.Partial ∧
      d.total = false := by
  have hnone : m.Assigned [] := fun ref href => by cases href
  rcases @AttributeMap.Typed.forEach F d [] _ hd.initGraph ⟨m, gen⟩ hm hnone with
    ⟨s, hrun, hs, ha⟩ | ⟨x, s, hrun, hstopped, htotal, -⟩
  · refine .inl ⟨s, hrun, hs, ha.mono fun ref href => ?_⟩
    rw [List.append_nil, List.mem_reverse]
    exact href
  · refine .inr ⟨x, s, hrun, hstopped, ?_⟩
    rw [SimulationDef.total, List.all_append, htotal, Bool.false_and]

/-- A handler that a partial operation stopped has no answer, or reports the operation. -/
theorem answer_partial {S α : Type} {onReturn : α → Response} {onCatch : Exception → Response}
    {message : String} (hcatch : ∀ x, onCatch x = .error .internal (formatError message x))
    {r : Except Fault α × Engine S} {x : Fault} (hr : r.1 = .error x) (hx : x.Partial) :
    answer onReturn onCatch r = none ∨
      ∃ o e', answer onReturn onCatch r = some (o, e') ∧ PartialReply message o := by
  rw [answer, hr]
  cases hx with
  | undefined => exact .inl rfl
  | arcSin => exact .inr ⟨_, _, rfl, _, .arcSin, hcatch _⟩
  | arcCos => exact .inr ⟨_, _, rfl, _, .arcCos, hcatch _⟩

theorem locked_view (e : Engine Stores) (name : String) :
    (e.view.sims.get? name).map Simulation.locked = (e.sims.get? name).map Simulation.locked := by
  rw [view, get?_map, Option.map_map]
  rfl

/-- What becomes of the application of a well-typed definition. -/
theorem applySimulation_typed {d : SimulationDef} (hd : d.withIds.WellTyped)
    {e : Engine AttributeMap}
    (hlock : ((e.sims.get? d.name).map Simulation.locked).getD false = false) :
    (∃ e', step F e (.applySimulation d) = some (.simulation d.withIds, e') ∧ Runs d.withIds e') ∨
    d.withIds.total = false ∧ (step F e (.applySimulation d) = none ∨
      ∃ o e', step F e (.applySimulation d) = some (o, e') ∧
        PartialReply "Something went wrong while running the initGraph of the simulation" o) := by
  obtain ⟨stores, hcon, -, htyped⟩ := Stores.typed_of_construct hd
  have hstep : step F e (.applySimulation d) =
      createSimulation F d.name d.withIds stores.view e := by
    simp only [step, applySimulation, hlock, Bool.false_eq_true, if_false, construct_view hcon]
  rw [hstep]
  rcases @initGraph_typed F _ hd _ htyped e.gen with
    ⟨s, hrun, hs, ha⟩ | ⟨x, s, hrun, hstopped, htotal⟩
  · refine .inl ⟨e.register d.name ⟨d.withIds, stores.view, false⟩ s, ?_,
      ⟨_, OrderedDict.get?_insert_self _ _ _, rfl, hs, ha⟩⟩
    rw [createSimulation, runOn, hrun, answer]
  · refine .inr ⟨htotal, answer_partial (fun _ => rfl) ?_ hstopped⟩
    rw [runOn, hrun]

/-- What becomes of a step of a well-typed simulation. -/
theorem stepSimulation_typed {d : SimulationDef} (hd : d.WellTyped) {e : Engine AttributeMap}
    (he : Runs d e) :
    (∃ e', step F e (.stepSimulation d.name) = some (.empty, e')) ∨
    d.total = false ∧ (step F e (.stepSimulation d.name) = none ∨
      ∃ system ∈ d.systems, ∃ o e', step F e (.stepSimulation d.name) = some (o, e') ∧
        PartialReply ("Something went wrong while running system with ID: " ++
          toString system.id ++ ".") o) := by
  obtain ⟨sim, hget, hdef, hs, ha⟩ := he
  have hstep : step F e (.stepSimulation d.name) = answer (fun _ => .empty)
      (fun x => .error .internal x.what)
      (runOn (runSystems F d.systems) d.name { sim with locked := true } e) := by
    simp only [step, stepSimulation, hget, hdef]
  rw [hstep]
  rcases @AttributeMap.Typed.runSystems F d _ _ hd.systems ⟨sim.store, e.gen⟩ hs ha with
    ⟨s, hrun⟩ | ⟨system, hmem, x, s, hstopped, hrun, htotal⟩
  · refine .inl ⟨e.register d.name { sim with locked := true } s, ?_⟩
    rw [runOn, hrun, answer]
  · refine .inr ⟨by rw [SimulationDef.total, List.all_append, htotal, Bool.and_false], ?_⟩
    rw [runOn, hrun, answer]
    cases hstopped with
    | undefined => exact .inl rfl
    | arcSin => exact .inr ⟨system, hmem, _, _, rfl, _, .arcSin, rfl⟩
    | arcCos => exact .inr ⟨system, hmem, _, _, rfl, _, .arcCos, rfl⟩

/-- An attribute that the initial graph assigned can be read. -/
theorem getAttribute_typed {d : SimulationDef} {e : Engine AttributeMap} (he : Runs d e)
    {ref : AttributeRef} (href : ref ∈ d.initialized) {t : TypePrimitive}
    (ht : d.attributeType ref = some t) :
    ∃ v e', step F e (.getAttribute d.name ref) = some (.value v, e') ∧ v.HasType t := by
  obtain ⟨sim, hget, -, hs, ha⟩ := he
  obtain ⟨v, hv, htype⟩ := hs.hasAttribute ha href t ht
  refine ⟨v, e.register d.name sim ⟨sim.store, e.gen⟩, ?_, htype⟩
  have hrun : (onStore (retrieve ref) : Eval AttributeMap Value) ⟨sim.store, e.gen⟩ =
      (.ok v, ⟨sim.store, e.gen⟩) := Prod.ext hv rfl
  simp only [step, getAttribute, hget]
  rw [runOn, hrun, answer]

/-- A level that a system raises while a switch is on. -/
def raisedLevel : SimulationDef where
  name := "s"
  entities := [⟨1, ["C"]⟩]
  components := [⟨"C", ((∅ : OrderedDict String DataType).insert "level"
    (.primitive .float64)).insert "on" (.primitive .bool)⟩]
  systems := [⟨1, ⟨[], [⟨⟨1, "C", "level"⟩, .switch (.retrieve ⟨1, "C", "on"⟩)
    (.binary .add (.retrieve ⟨1, "C", "level"⟩) (.const (setVal (.number (.int32 1)))))
    (.retrieve ⟨1, "C", "level"⟩)⟩]⟩⟩]
  initGraph := ⟨[], [⟨⟨1, "C", "level"⟩, .const (setVal (.number (.int32 0)))⟩,
    ⟨⟨1, "C", "on"⟩, .const (setVal (.bool true))⟩]⟩

end Engine
end Bentobox
