import Bentobox.Engine.Answers

/-!
# Values and the types declared for them

An attribute conforms to its schema when its value has the declared data type and
holds what that type names. `setValue` accepts native values only, and keeps one
unchecked for an attribute that is declared as an array, so exactly the
attributes of array types stop conforming when they are written.
-/
namespace Bentobox

open AttributeStore SimulationStore

/-- The type that names the case of a primitive. -/
def Primitive.caseType : Primitive → Option TypePrimitive
  | notSet => none
  | int8 _ => some .byte
  | int32 _ => some .int32
  | int64 _ => some .int64
  | float32 _ => some .float32
  | float64 _ => some .float64
  | strVal _ => some .string
  | boolean _ => some .bool

/-- The value has the given data type and holds what the type names. -/
def Value.Conforms (t : DataType) (w : Value) : Prop :=
  w.dataType = some t ∧ match t, w.kind with
    | .primitive p, .primitive x => x.caseType = some p
    | .array _, .array _ => True
    | _, _ => False

theorem caseType_toPrimitive (s : Scalar) : s.toPrimitive.caseType = some s.type := by
  rcases s with n | s | b
  · cases n <;> rfl
  · rfl
  · rfl

theorem setVal_conforms (s : Scalar) : (setVal s).Conforms (.primitive s.type) :=
  ⟨rfl, caseType_toPrimitive s⟩

/-- For an attribute that is declared as an array any native value is taken, and kept as it is. -/
theorem storedValue_array_iff {F : FloatOps} {cd : ComponentDef} {a : String} {v w : Value}
    {t : DataType} (ht : cd.schema.get? a = some t) (harr : t.hasArray = true) :
    UserComponent.storedValue F cd a v = .ok w ↔ w = v ∧ ∃ x, v = setVal x := by
  constructor
  · intro h
    obtain ⟨t', hc, hs⟩ := Fallible.result_bind_eq_ok_iff.mp h
    obtain ⟨ht', hx⟩ := UserComponent.checkValue_eq_ok_iff.mp hc
    rw [ht] at ht'
    cases ht'
    rw [UserComponent.valueToSet, if_pos harr] at hs
    cases hs
    exact ⟨rfl, hx⟩
  · rintro ⟨rfl, hx⟩
    refine Fallible.result_bind_eq_ok_iff.mpr
      ⟨t, UserComponent.checkValue_eq_ok_iff.mpr ⟨ht, hx⟩, ?_⟩
    rw [UserComponent.valueToSet, if_pos harr]

/-- **A stored value** conforms to its declared type unless that is an array. -/
theorem storedValue_conforms_iff {F : FloatOps} {cd : ComponentDef} {a : String} {v w : Value}
    {t : DataType} (h : UserComponent.storedValue F cd a v = .ok w)
    (ht : cd.schema.get? a = some t) : w.Conforms t ↔ t.hasArray = false := by
  cases harr : t.hasArray with
  | true =>
    obtain ⟨rfl, x, rfl⟩ := (storedValue_array_iff ht harr).mp h
    simp only [Bool.true_eq_false, iff_false]
    rintro ⟨hd, -⟩
    cases hd
    cases harr
  | false =>
    obtain ⟨t', hc, hs⟩ := Fallible.result_bind_eq_ok_iff.mp h
    obtain ⟨ht', x, rfl⟩ := UserComponent.checkValue_eq_ok_iff.mp hc
    rw [ht] at ht'
    cases ht'
    simp only [iff_true]
    rw [UserComponent.valueToSet] at hs
    split_ifs at hs with harr' hnum hty
    · rw [harr] at harr'
      cases harr'
    · obtain ⟨y, hy, rfl⟩ := Fallible.map_eq_ok_iff.mp hs
      obtain ⟨n, -, hconv⟩ := runFnWithVal_eq_ok_iff.mp hy
      have hcast : UserComponent.convert F n t.getPrimitive = .ok y := by
        simpa [runFnWithValType, harr, hnum.1] using hconv
      have htype : t = .primitive y.type := by
        rw [UserComponent.type_of_convert F hcast]
        have := hnum.1
        cases t <;> simp_all [DataType.getPrimitive, numericTypes, DataType.hasArray]
      rw [htype]
      exact setVal_conforms y
    · cases hs
      have htype : t = .primitive x.type := by
        simpa [setVal, eq_comm] using hty
      rw [htype]
      exact setVal_conforms x

/-! ## What outputs offer -/

section Offers
variable (F : FloatOps)

/-- The values that outputs have for their attributes, up to the first one that fails. -/
def offers {S : Type} [AttributeStore S] : List Mutate → Env S → List (AttributeRef × Value)
  | [], _ => []
  | o :: os, s =>
    match evaluateNode F o.toNode s with
    | (.error _, _) => []
    | (.ok v, s₁) => (o.mutateAttr, v) ::
      match onStore (assign F o.mutateAttr v) s₁ with
      | (.error _, _) => []
      | (.ok _, s₂) => offers os s₂

theorem offers_map {S T : Type} [AttributeStore S] [AttributeStore T] {P : S → Prop} {view : S → T}
    (h : StoreRefines P view) (os : List Mutate) {s : Env S} (hs : P s.store) :
    offers F os (s.map view) = offers F os s := by
  induction os generalizing s with
  | nil => rfl
  | cons o os ih =>
    have hev := evaluateNode_refines F h o.toNode
    have hev' := hev.eq hs
    have hP := hev.keeps s hs
    rcases hv : evaluateNode F o.toNode s with ⟨x | v, s₁⟩
    · rw [hv] at hev'
      simp only [offers, hv, hev']
    · rw [hv] at hev' hP
      have has := onStore_refines (h.assign F o.mutateAttr v)
      have has' := has.eq hP
      have hP' := has.keeps s₁ hP
      rcases hw : onStore (assign F o.mutateAttr v) s₁ with ⟨x | ⟨⟩, s₂⟩
      · rw [hw] at has'
        simp only [offers, hv, hev', hw, has']
      · rw [hw] at has' hP'
        simp only [offers, hv, hev', hw, has', ih hP']

/-- What is offered is taken exactly when it can be converted. -/
theorem AttributeMap.mem_mutations_iff {os : List Mutate} {s : Env AttributeMap}
    {ref : AttributeRef} {v : Value} : (ref, v) ∈ mutations F os s ↔
      (ref, v) ∈ offers F os s ∧ ∃ w, s.store.converted F ref v = .ok w := by
  induction os generalizing s with
  | nil => simp [mutations, offers]
  | cons o os ih =>
    have hstore := evaluateNode_store F o.toNode s
    rcases hv : evaluateNode F o.toNode s with ⟨x | u, s₁⟩
    · simp [mutations, offers, hv]
    · rw [hv] at hstore
      cases hw : s.store.converted F o.mutateAttr u with
      | error x =>
        have hput : onStore (assign F o.mutateAttr u) s₁ = (.error x, s₁) := by
          rw [onStore_assign, hstore, hw]
        simp only [mutations, offers, hv, hput, List.not_mem_nil, List.mem_singleton, Prod.mk.injEq,
          false_iff, not_and, not_exists, and_imp]
        rintro rfl rfl w
        rw [hw]
        exact fun h => by cases h
      | ok w =>
        have hput : onStore (assign F o.mutateAttr u) s₁ =
            (.ok (), ⟨s.store.set o.mutateAttr w, s₁.gen⟩) := by
          rw [onStore_assign, hstore, hw]
        have hconv : ∀ ref v, (s.store.set o.mutateAttr w).converted F ref v =
            s.store.converted F ref v := fun _ _ => rfl
        simp only [mutations, offers, hv, hput, List.mem_cons, ih, hconv, Prod.mk.injEq]
        constructor
        · rintro (⟨rfl, rfl⟩ | ⟨hmem, hw⟩)
          · exact ⟨.inl ⟨rfl, rfl⟩, w, hw⟩
          · exact ⟨.inr hmem, hw⟩
        · rintro ⟨h | h, hw⟩
          · exact .inl h
          · exact .inr ⟨h, hw⟩

end Offers

namespace Engine
variable {F : FloatOps}

/-- Every attribute that has a value conforms to its schema. -/
def Conforms {S : Type} [AttributeStore S] (e : Engine S) : Prop :=
  ∀ name sim ref w, e.sims.get? name = some sim → reading sim.store ref = .ok w →
    ∃ t, sim.simDef.declaredType ref = some t ∧ w.Conforms t

/-- The definition that a request works on. -/
def definitionAt {S : Type} (e : Engine S) (name : String) : Request → Option SimulationDef
  | .applySimulation d => if d.name = name then some d else (e.sims.get? name).map Simulation.simDef
  | _ => (e.sims.get? name).map Simulation.simDef

/-- The outputs that a request runs on a simulation, with the store that they start from. -/
inductive Evaluates {S : Type} [SimulationStore S] (e : Engine S) :
    Request → String → List Mutate → S → Prop
  | created {d : SimulationDef} {r : SimulationDef × S}
    (unlocked : ¬ ((e.sims.get? d.name).map Simulation.locked).getD false)
    (construct : construct d = .ok r) :
    Evaluates e (.applySimulation d) d.name r.1.initGraph.outputs r.2
  | stepped {name : String} {sim : Simulation S} (registered : e.sims.get? name = some sim) :
    Evaluates e (.stepSimulation name) name (outputsOf sim.simDef.systems) sim.store
  | assigned {name : String} {sim : Simulation S} (attr : AttributeRef) (value : Value)
    (registered : e.sims.get? name = some sim) :
    Evaluates e (.setAttribute name attr value) name [⟨attr, .const value⟩] sim.store

/-- An output that the request runs, or the request itself, offers a native value to an attribute
that a component of the entity declares as an array. -/
def OffersArray (F : FloatOps) (e : Engine Stores) (r : Request) : Prop :=
  ∃ name outputs stores ref x c t, Evaluates e r name outputs stores ∧
    (ref, setVal x) ∈ offers F outputs ⟨stores, e.gen⟩ ∧
    stores.component ref.component ref.entityId = .ok c ∧
    c.compDef.schema.get? ref.attributeName = some t ∧ t.hasArray = true

/-- A value of an attribute that is declared as an array is stored by the request. -/
def WritesArray {S : Type} [SimulationStore S] (F : FloatOps) (e : Engine S) (r : Request) : Prop :=
  ∃ name ref v d t, .mutated name ref v ∈ events F e r ∧ definitionAt e name r = some d ∧
    d.declaredType ref = some t ∧ t.hasArray = true

/-- After a request a simulation has the definition it had, or it was created by the request. -/
theorem simDef_step {e e' : Engine AttributeMap} {r : Request} {o : Response}
    (hr : Engine.step F e r = some (o, e')) {name : String} {sim' : Simulation AttributeMap}
    (hs' : e'.sims.get? name = some sim') :
    (∃ sim, e.sims.get? name = some sim ∧ sim'.simDef = sim.simDef ∧
      (events F e r = [] ∨ definitionAt e name r = some sim.simDef)) ∨
    ∃ d : SimulationDef, definitionAt e name r = some d ∧ sim'.simDef = d.withIds ∧
      .created name ∈ events F e r := by
  -- a handler that runs on a registered simulation keeps its definition
  have hreg : ∀ n sim locked (s : Env AttributeMap), e.sims.get? n = some sim →
      (e.register n { sim with locked := locked } s).sims.get? name = some sim' →
      ∃ sim, e.sims.get? name = some sim ∧ sim'.simDef = sim.simDef := by
    intro n sim locked s hs h
    simp only [Engine.register, OrderedDict.get?_insert] at h
    split_ifs at h with hn
    · cases h
      exact ⟨sim, by rw [hn, hs], rfl⟩
    · exact ⟨sim', h, rfl⟩
  cases step_transition F hr with
  | idle hidle => exact .inl ⟨sim', hs', rfl, .inl (events_of_idle F hidle)⟩
  | @created d simDef store hlock hc =>
    obtain ⟨stores, hstores, -⟩ := construct_spec d
    cases hc.symm.trans (construct_view hstores)
    simp only [runOn, Engine.register, OrderedDict.get?_insert] at hs'
    simp only [definitionAt]
    by_cases hn : name = d.name
    · rw [if_pos hn] at hs'
      cases hs'
      exact .inr ⟨d, by simp [hn], rfl, by simp [events, hlock, hc, hn]⟩
    · rw [if_neg hn] at hs'
      exact .inl ⟨sim', hs', rfl, .inr (by simp [Ne.symm hn, hs'])⟩
  | dropped _ =>
    simp only [OrderedDict.get?_erase] at hs'
    split_ifs at hs'
    exact .inl ⟨sim', hs', rfl, .inr (by simp [definitionAt, hs'])⟩
  | @stepped n sim hs =>
    obtain ⟨sim₀, h₀, hdef⟩ := hreg n sim _ _ hs hs'
    exact .inl ⟨sim₀, h₀, hdef, .inr (by simp [definitionAt, h₀])⟩
  | @retrieved n _ sim hs =>
    obtain ⟨sim₀, h₀, hdef⟩ := hreg n sim _ _ hs hs'
    exact .inl ⟨sim₀, h₀, hdef, .inl rfl⟩
  | @assigned n _ _ sim hs =>
    obtain ⟨sim₀, h₀, hdef⟩ := hreg n sim _ _ hs hs'
    exact .inl ⟨sim₀, h₀, hdef, .inr (by simp [definitionAt, h₀])⟩

/-- No attribute that is declared as an array was ever written. -/
def NoArrayWritten (h : List Event) (e : Engine AttributeMap) : Prop :=
  ∀ name sim ref t, e.sims.get? name = some sim → sim.simDef.declaredType ref = some t →
    t.hasArray = true → lastMutation h name ref = none

/-- Events that do not mutate an attribute leave it without a value, when it had none before or
is cleared by one of them. -/
theorem replay_eq_none {name : String} {ref : AttributeRef} {evs : List Event} {x : Option Value}
    (hno : ∀ v, .mutated name ref v ∉ evs) (hx : x = none ∨ .created name ∈ evs) :
    History.replay Event.effect (name, ref) x evs = none := by
  induction evs generalizing x with
  | nil => simpa using hx
  | cons ev evs ih =>
    rw [History.replay_cons]
    refine ih (fun v hv => hno v (List.mem_cons_of_mem _ hv)) ?_
    rcases hx with rfl | hc
    · refine .inl ?_
      cases ev with
      | created n => simp only [Event.effect]; split_ifs <;> rfl
      | dropped n => simp only [Event.effect]; split_ifs <;> rfl
      | mutated n r v =>
        simp only [Event.effect]
        split_ifs with hk
        · cases hk; exact absurd List.mem_cons_self (hno v)
        · rfl
    · rcases List.mem_cons.mp hc with rfl | hc
      · exact .inl (by simp [Event.effect])
      · exact .inr hc

theorem NoArrayWritten.step {h : List Event} {e e' : Engine AttributeMap}
    (he : NoArrayWritten h e) {r : Request} {o : Response}
    (hr : Engine.step F e r = some (o, e')) (hw : ¬ WritesArray F e r) :
    NoArrayWritten (h ++ events F e r) e' := by
  intro name sim' ref t hs' ht harr
  rw [lastMutation, History.replay_append]
  rcases simDef_step hr hs' with ⟨sim, hs, hdef, hev⟩ | ⟨d, hd, hdef, hc⟩
  · rw [hdef] at ht
    have hlast : lastMutation h name ref = none := he name sim ref t hs ht harr
    refine replay_eq_none (fun v hv => ?_) (.inl hlast)
    rcases hev with hev | hev
    · rw [hev] at hv; cases hv
    · exact hw ⟨name, ref, v, sim.simDef, t, hv, hev, ht, harr⟩
  · refine replay_eq_none (fun v hv => ?_) (.inr hc)
    rw [hdef] at ht
    exact hw ⟨name, ref, v, d, t, hv, hd, ht, harr⟩

/-- A state that follows its history conforms when no array was written. -/
theorem Tracks.conforms {h : List Event} {e : Engine AttributeMap} (he : Tracks F h e)
    (hno : NoArrayWritten h e) : Conforms e := by
  intro name sim ref w hs hget
  have hname := he name
  rw [hs] at hname
  have hlast := hname.2 ref
  cases hl : lastMutation h name ref with
  | none =>
    simp only [hl] at hlast
    obtain ⟨cd, -, hv⟩ := Fallible.result_bind_eq_ok_iff.mp hget
    rw [hlast] at hv
    cases hv
  | some v =>
    simp only [hl] at hlast
    obtain ⟨w', hw', hget'⟩ := hlast
    rw [reading_map, hget'] at hget
    cases hget
    obtain ⟨cd, hcd, hst⟩ := Fallible.result_bind_eq_ok_iff.mp hw'
    obtain ⟨t, ht, -⟩ := UserComponent.storedValue_eq_ok F hst
    have htype : sim.simDef.declaredType ref = some t := by
      rw [hname.1 _ _ cd hcd] at ht
      exact ht
    refine ⟨t, htype, (storedValue_conforms_iff hst ht).mpr ?_⟩
    cases harr : t.hasArray with
    | false => rfl
    | true => rw [hno name sim ref t hs htype harr] at hl; cases hl

/-- An attribute that is mutated and not cleared has a latest mutation. -/
theorem isSome_replay {name : String} {ref : AttributeRef} {evs : List Event} {x : Option Value}
    (hno : ∀ ev ∈ evs, ev.effect (name, ref) ≠ some none)
    (hx : x.isSome = true ∨ ∃ v, .mutated name ref v ∈ evs) :
    (History.replay Event.effect (name, ref) x evs).isSome = true := by
  induction evs generalizing x with
  | nil => simpa using hx
  | cons ev evs ih =>
    rw [History.replay_cons]
    refine ih (fun ev' hev' => hno ev' (List.mem_cons_of_mem _ hev')) ?_
    rcases hx with hx | ⟨v, hv⟩
    · refine .inl ?_
      cases he : ev.effect (name, ref) with
      | none => exact hx
      | some y =>
        cases y with
        | none => exact absurd he (hno ev List.mem_cons_self)
        | some w => rfl
    · rcases List.mem_cons.mp hv with rfl | hv
      · exact .inl (by simp [Event.effect])
      · exact .inr ⟨v, hv⟩

theorem effect_mutatedEvents_ne {name : String} {ms : List (AttributeRef × Value)} {ev : Event}
    (h : ev ∈ mutatedEvents name ms) (key : String × AttributeRef) :
    ev.effect key ≠ some none := by
  obtain ⟨m, -, rfl⟩ := List.mem_map.mp h
  simp only [Event.effect]
  split_ifs <;> simp

/-- An attribute that a request mutates has a latest mutation after it. -/
theorem lastMutation_of_mutated {e : Engine AttributeMap} {r : Request} {name : String}
    {ref : AttributeRef} {v : Value} (h : List Event)
    (hmem : .mutated name ref v ∈ events F e r) :
    (lastMutation (h ++ events F e r) name ref).isSome = true := by
  rw [lastMutation, History.replay_append]
  cases r with
  | applySimulation d =>
    simp only [events] at hmem ⊢
    split_ifs at hmem ⊢
    · cases hmem
    · cases hc : (construct d : Except Fault (SimulationDef × AttributeMap)) with
      | error x => simp only [hc] at hmem; cases hmem
      | ok p =>
        simp only [hc] at hmem ⊢
        rw [History.replay_cons]
        rcases List.mem_cons.mp hmem with h' | hmem
        · cases h'
        · exact isSome_replay (fun ev hev => effect_mutatedEvents_ne hev _) (.inr ⟨v, hmem⟩)
  | dropSimulation n =>
    simp only [events] at hmem
    split at hmem <;> simp at hmem
  | stepSimulation n =>
    simp only [events] at hmem ⊢
    cases hs : e.sims.get? n with
    | none => rw [hs] at hmem; cases hmem
    | some sim =>
      simp only [hs] at hmem ⊢
      exact isSome_replay (fun ev hev => effect_mutatedEvents_ne hev _) (.inr ⟨v, hmem⟩)
  | setAttribute n r u =>
    simp only [events] at hmem ⊢
    cases hs : e.sims.get? n with
    | none => rw [hs] at hmem; cases hmem
    | some sim =>
      simp only [hs] at hmem ⊢
      exact isSome_replay (fun ev hev => effect_mutatedEvents_ne hev _) (.inr ⟨v, hmem⟩)
  | getSimulation _ | listSimulation | getAttribute _ _ => cases hmem

/-- **Writing an array breaks conformity**: the value kept for the attribute does not have the
declared type. -/
theorem Tracks.not_conforms {h : List Event} {e e' : Engine AttributeMap} (he : Tracks F h e)
    {r : Request} {o : Response} (hr : Engine.step F e r = some (o, e'))
    (hw : WritesArray F e r) : ¬ Conforms e' := by
  obtain ⟨name, ref, v, d, t, hmem, hd, ht, harr⟩ := hw
  intro hconf
  have hname := he.step hr name
  have hsome := lastMutation_of_mutated h hmem
  cases hs' : e'.sims.get? name with
  | none =>
    rw [hs'] at hname
    rw [hname ref] at hsome
    cases hsome
  | some sim' =>
    have hdecl : sim'.simDef.declaredType ref = some t := by
      rcases simDef_step hr hs' with ⟨sim, hs, hdef, hev⟩ | ⟨d', hd', hdef, -⟩
      · rcases hev with hev | hev
        · rw [hev] at hmem; cases hmem
        · rw [hd] at hev
          cases hev
          rw [hdef, ht]
      · rw [hd] at hd'
        cases hd'
        rw [hdef]
        exact ht
    rw [hs'] at hname
    obtain ⟨u, hu⟩ := Option.isSome_iff_exists.mp hsome
    have hlast := hname.2 ref
    simp only [hu] at hlast
    obtain ⟨w, hw, hget⟩ := hlast
    obtain ⟨t', ht', hc⟩ := hconf name sim' ref w hs' hget
    rw [hdecl] at ht'
    cases ht'
    obtain ⟨cd, hcd, hst⟩ := Fallible.result_bind_eq_ok_iff.mp hw
    have hschema : cd.schema.get? ref.attributeName = some t := by
      rw [hname.1 _ _ cd hcd]
      exact hdecl
    rw [(storedValue_conforms_iff hst hschema).mp hc] at harr
    cases harr

theorem conforms_view {e : Engine Stores} (he : e.All Stores.Wf) :
    Conforms e.view ↔ Conforms e := by
  constructor
  · intro h name sim ref w hs hget
    refine h name (sim.map Stores.view) ref w (get?_view hs) ?_
    rw [reading_eq_get (he name sim hs)] at hget
    exact hget
  · intro h name sim ref w hs hget
    rw [Engine.view, get?_map, Option.map_eq_some_iff] at hs
    obtain ⟨sim', hs', rfl⟩ := hs
    exact h name sim' ref w hs' ((reading_eq_get (he name sim' hs') ref).trans hget)

theorem writesArray_view {e : Engine Stores} (he : e.All Stores.Wf) (r : Request) :
    WritesArray F e.view r ↔ WritesArray F e r := by
  have hdef : ∀ name, definitionAt e.view name r = definitionAt e name r := by
    intro name
    have hsims : (e.view.sims.get? name).map Simulation.simDef =
        (e.sims.get? name).map Simulation.simDef := by
      rw [Engine.view, get?_map, Option.map_map]
      rfl
    cases r <;> simp only [definitionAt, hsims]
  simp only [WritesArray, hdef]
  rw [Engine.view, events_map F stores_refine_simulation he]

theorem mem_events_iff {S : Type} [SimulationStore S] {e : Engine S} {r : Request} {name : String}
    {ref : AttributeRef} {v : Value} : .mutated name ref v ∈ events F e r ↔
      ∃ outputs store, Evaluates e r name outputs store ∧
        (ref, v) ∈ mutations F outputs ⟨store, e.gen⟩ := by
  have hmem : ∀ n ms, Event.mutated name ref v ∈ mutatedEvents n ms ↔ n = name ∧ (ref, v) ∈ ms := by
    intro n ms
    simp only [mutatedEvents, List.mem_map, Event.mutated.injEq, Prod.exists]
    constructor
    · rintro ⟨_, _, hm, rfl, rfl, rfl⟩
      exact ⟨rfl, hm⟩
    · rintro ⟨rfl, hm⟩
      exact ⟨_, _, hm, rfl, rfl, rfl⟩
  constructor
  · intro h
    cases r with
    | applySimulation d =>
      simp only [events] at h
      split_ifs at h with hlock
      · cases h
      · cases hc : (construct d : Except Fault (SimulationDef × S)) with
        | error x => rw [hc] at h; cases h
        | ok p =>
          simp only [hc, List.mem_cons, reduceCtorEq, false_or, hmem] at h
          obtain ⟨rfl, h⟩ := h
          exact ⟨_, _, .created hlock hc, h⟩
    | dropSimulation n =>
      simp only [events] at h
      split at h <;> simp at h
    | stepSimulation n =>
      simp only [events] at h
      cases hs : e.sims.get? n with
      | none => rw [hs] at h; cases h
      | some sim =>
        simp only [hs, hmem] at h
        obtain ⟨rfl, h⟩ := h
        exact ⟨_, _, .stepped hs, h⟩
    | setAttribute n attr value =>
      simp only [events] at h
      cases hs : e.sims.get? n with
      | none => rw [hs] at h; cases h
      | some sim =>
        simp only [hs, hmem] at h
        obtain ⟨rfl, h⟩ := h
        exact ⟨_, _, .assigned attr value hs, h⟩
    | getSimulation _ | listSimulation | getAttribute _ _ => cases h
  · rintro ⟨outputs, store, hev, h⟩
    cases hev with
    | created hlock hc =>
      simp only [events, if_neg hlock, hc]
      exact List.mem_cons_of_mem _ ((hmem _ _).mpr ⟨rfl, h⟩)
    | stepped hs | assigned _ _ hs =>
      simp only [events, hs]
      exact (hmem _ _).mpr ⟨rfl, h⟩

/-- The components of the store that a request works on are those of the definition. -/
theorem Tracks.declared {h : List Event} {e : Engine Stores} (ht : Tracks F h e.view)
    {r : Request} {name : String} {outputs : List Mutate} {stores : Stores}
    (hev : Evaluates e r name outputs stores) : ∃ d, definitionAt e name r = some d ∧
      ∀ n id cd, stores.view.layout n id = .ok cd → cd = d.componentDef n := by
  have hregistered : ∀ {name sim}, e.sims.get? name = some sim →
      sim.store.view.Declared sim.simDef := fun {name sim} hs => by
    have hname := ht name
    rw [get?_view hs] at hname
    exact hname.1
  cases hev with
  | @created d p _ hc =>
    obtain ⟨stores', hstores, -, -, hdecl⟩ := construct_spec d
    cases hc.symm.trans hstores
    exact ⟨d, if_pos rfl, hdecl⟩
  | stepped hs | assigned _ _ hs =>
    exact ⟨_, congrArg (Option.map Simulation.simDef) hs, hregistered hs⟩

theorem wf_of_evaluates {e : Engine Stores} (he : e.All Stores.Wf) {r : Request} {name : String}
    {outputs : List Mutate} {stores : Stores} (hev : Evaluates e r name outputs stores) :
    stores.Wf := by
  cases hev with
  | @created d p _ hc =>
    obtain ⟨stores', hstores, hwf, -⟩ := construct_spec d
    cases hc.symm.trans hstores
    exact hwf
  | stepped hs | assigned _ _ hs => exact he _ _ hs

/-- **Offers to arrays** are taken, and nothing else is stored in arrays. -/
theorem Tracks.offersArray_iff {h : List Event} {e : Engine Stores} (ht : Tracks F h e.view)
    (he : e.All Stores.Wf) {r : Request} : OffersArray F e r ↔ WritesArray F e r := by
  constructor
  · rintro ⟨name, outputs, stores, ref, x, c, t, hev, hoffer, hc, htype, harr⟩
    have hwf := wf_of_evaluates he hev
    have hlayout : stores.view.layout ref.component ref.entityId = .ok c.compDef := by
      simp only [Stores.view, hc, Fallible.map_ok]
    have hconv : stores.view.converted F ref (setVal x) = .ok (setVal x) := by
      rw [AttributeMap.converted, hlayout]
      exact (storedValue_array_iff htype harr).mpr ⟨rfl, x, rfl⟩
    rw [← offers_map F Stores.stores_refine_map outputs (s := ⟨stores, e.gen⟩) hwf] at hoffer
    have hmem := (AttributeMap.mem_mutations_iff F).mpr ⟨hoffer, _, hconv⟩
    rw [mutations_map F Stores.stores_refine_map outputs (s := ⟨stores, e.gen⟩) hwf] at hmem
    obtain ⟨d, hd, hdecl⟩ := ht.declared hev
    rw [hdecl _ _ _ hlayout] at htype
    exact ⟨name, ref, setVal x, d, t, mem_events_iff.mpr ⟨_, _, hev, hmem⟩, hd, htype, harr⟩
  · rintro ⟨name, ref, v, d, t, hmem, hd, htype, harr⟩
    obtain ⟨outputs, stores, hev, hmem⟩ := mem_events_iff.mp hmem
    have hwf := wf_of_evaluates he hev
    rw [← mutations_map F Stores.stores_refine_map outputs (s := ⟨stores, e.gen⟩) hwf] at hmem
    obtain ⟨hoffer, w, hconv⟩ := (AttributeMap.mem_mutations_iff F).mp hmem
    rw [offers_map F Stores.stores_refine_map outputs (s := ⟨stores, e.gen⟩) hwf] at hoffer
    obtain ⟨cd, hlayout, hst⟩ := Fallible.result_bind_eq_ok_iff.mp hconv
    obtain ⟨d', hd', hdecl⟩ := ht.declared hev
    rw [hd] at hd'
    cases hd'
    obtain ⟨c, hc, rfl⟩ := Fallible.map_eq_ok_iff.mp hlayout
    have htype' : c.compDef.schema.get? ref.attributeName = some t := by
      rw [hdecl _ _ _ hlayout]
      exact htype
    obtain ⟨-, x, rfl⟩ := (storedValue_array_iff htype' harr).mp hst
    exact ⟨name, outputs, stores, ref, x, c, t, hev, hoffer, hc, htype', harr⟩

/-- Consistent stores, reached by a history in which no array was written. -/
def Unwritten (F : FloatOps) (e : Engine Stores) : Prop :=
  e.All Stores.Wf ∧ ∃ h, Tracks F h e.view ∧ NoArrayWritten h e.view

namespace Unwritten
variable {e e' : Engine Stores} {r : Request} {o : Response}

theorem new (gen : ℕ) : Unwritten F (new gen) :=
  ⟨All.new gen, [], Tracks.new gen, fun name sim ref t hs => by cases hs⟩

theorem conforms (he : Unwritten F e) : Conforms e := by
  obtain ⟨hwf, h, ht, hn⟩ := he
  exact (conforms_view hwf).mp (ht.conforms hn)

theorem step (he : Unwritten F e) (hr : Engine.step F e r = some (o, e'))
    (hw : ¬ OffersArray F e r) : Unwritten F e' := by
  obtain ⟨hwf, h, ht, hn⟩ := he
  have hview := step_view hwf hr
  rw [ht.offersArray_iff hwf, ← writesArray_view hwf] at hw
  exact ⟨step_all F stores_refine_simulation hwf hr, _, ht.step hview, hn.step hview hw⟩

theorem not_conforms (he : Unwritten F e) (hr : Engine.step F e r = some (o, e'))
    (hw : OffersArray F e r) : ¬ Conforms e' := by
  obtain ⟨hwf, h, ht, -⟩ := he
  intro hc
  rw [ht.offersArray_iff hwf, ← writesArray_view hwf] at hw
  refine ht.not_conforms (step_view hwf hr) hw ?_
  exact (conforms_view (step_all F stores_refine_simulation hwf hr)).mpr hc

end Unwritten

/-- **Schema conformity.** The states that a run comes through conform to the schemas exactly
when no step of it offers a native value to an attribute that is declared as an array. -/
theorem conforms_iff_no_array_write {gen : ℕ} {requests : List Request}
    {responses : List Response} {e : Engine Stores}
    (hrun : run F (new gen) requests = some (responses, e)) :
    (∀ pre post os s, requests = pre ++ post →
      run F (new gen : Engine Stores) pre = some (os, s) → Conforms s) ↔
    Machine.Along (Engine.step F) (fun (s : Engine Stores) r => ¬ OffersArray F s r) (new gen)
      requests := by
  have hnew : Unwritten F (Engine.new gen) := Unwritten.new gen
  refine Machine.forall_prefix_iff_along (D := fun _ _ => True) (I := Unwritten F)
    (fun e r o e' he _ _ hr => ⟨fun hc hw => he.not_conforms hr hw hc, fun hw => ?_⟩)
    (fun e r o e' he _ _ hw hr => he.step hr hw) hnew hnew.conforms
    (Machine.along_of_forall (fun _ _ => trivial) _ _) hrun
  exact (he.step hr hw).conforms

/-- One entity with an array of two integers and an integer, of which the integer is initialized. -/
def arrayCell : SimulationDef where
  name := "s"
  entities := [⟨1, ["C"]⟩]
  components := [⟨"C", ((∅ : OrderedDict String DataType).insert "a"
    (.array ⟨[2], .int32⟩)).insert "n" (.primitive .int32)⟩]
  systems := []
  initGraph := ⟨[], [⟨⟨1, "C", "n"⟩, .const (setVal (.number (.int32 1)))⟩]⟩

/-- Writes to the integer, the second one of a wider type. -/
def writeCell : List Request :=
  [.applySimulation arrayCell, .setAttribute "s" ⟨1, "C", "n"⟩ (setVal (.number (.int64 7)))]

/-- The integer is stored in the type that is declared for it. -/
theorem conforms_iff_no_array_write_arrayCell : ∃ responses e,
    run default (new 0 : Engine Stores) writeCell = some (responses, e) ∧
    (Engine.step default e (.getAttribute "s" ⟨1, "C", "n"⟩)).map Prod.fst =
      some (.value (setVal (.number (.int32 7)))) ∧
    ∀ pre post os s, writeCell = pre ++ post →
      run default (new 0 : Engine Stores) pre = some (os, s) → Conforms s := by
  refine ⟨_, _, rfl, rfl, (conforms_iff_no_array_write rfl).mpr ⟨?_, ?_⟩⟩
  · rintro ⟨name, outputs, stores, ref, x, c, t, ⟨-, hconstruct⟩, hoffer, hc, htype, harr⟩
    cases hconstruct
    obtain ⟨rfl, -⟩ := Prod.mk.inj (List.mem_singleton.mp hoffer)
    cases hc
    cases htype
    cases harr
  · rintro o e hstep
    cases hstep
    refine ⟨?_, fun _ _ _ => trivial⟩
    rintro ⟨name, outputs, stores, ref, x, c, t, hev, hoffer, hc, htype, harr⟩
    cases hev with
    | assigned _ _ hs =>
      cases hs
      obtain ⟨rfl, -⟩ := Prod.mk.inj (List.mem_singleton.mp hoffer)
      cases hc
      cases htype
      cases harr

/-- An integer is accepted for an attribute that is declared as an array. -/
theorem schema_conformity_fails :
    ¬ ∀ (F : FloatOps) (gen : ℕ) (requests : List Request) (responses : List Response)
      (e : Engine Stores), run F (new gen) requests = some (responses, e) → Conforms e := by
  intro h
  obtain ⟨t, ht, hc, -⟩ := h default 0 [.applySimulation arrayCell,
    .setAttribute "s" ⟨1, "C", "a"⟩ (setVal (.number (.int32 7)))] _ _ rfl "s" _ ⟨1, "C", "a"⟩
    (setVal (.number (.int32 7))) rfl rfl
  cases ht
  cases hc

end Engine
end Bentobox
