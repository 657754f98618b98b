import Bentobox.Engine.History

/-!
# What `GetAttribute` answers

Along every run the map of a simulation holds, for every attribute, the value of
its latest mutation in the history, converted to the declared type. From this
follow what `GetAttribute` answers, which requests leave every later answer as it
was, and which attributes a request can change.
-/
namespace Bentobox

open AttributeStore SimulationStore

/-- The type declared for an attribute by the component definitions. -/
def SimulationDef.declaredType (d : SimulationDef) (ref : AttributeRef) : Option DataType :=
  (d.componentDef ref.component).schema.get? ref.attributeName

/-- The value that the latest mutation in a history gave to an attribute. -/
def lastMutation (h : List Event) (name : String) (ref : AttributeRef) : Option Value :=
  History.replay Event.effect (name, ref) none h

/-! ## Maps that follow a history -/

section Tracks
variable (F : FloatOps)

/-- Every component has the definition that `d` declares for its name. -/
def AttributeMap.Declared (d : SimulationDef) (m : AttributeMap) : Prop :=
  ∀ n e cd, m.layout n e = .ok cd → cd = d.componentDef n

/-- The map holds what storing the latest values gave, and nothing else. -/
def AttributeMap.Tracks (last : AttributeRef → Option Value) (m : AttributeMap) : Prop :=
  ∀ ref, match last ref with
    | none => m.value ref = none
    | some v => ∃ w, m.converted F ref v = .ok w ∧ m.get ref = .ok w

/-- Running one output in front of others. -/
theorem forEach_mutateOp_cons {S : Type} [AttributeStore S] (o : Mutate) (os : List Mutate)
    (s : Env S) : (∃ x s', mutateOp F o s = (.error x, s') ∧ mutations F (o :: os) s = [] ∧
        Fallible.forEach (mutateOp F) (o :: os) s = (.error x, s')) ∨
      ∃ v s', (evaluateNode F o.toNode s).1 = .ok v ∧ mutateOp F o s = (.ok (), s') ∧
        mutations F (o :: os) s = (o.mutateAttr, v) :: mutations F os s' ∧
        Fallible.forEach (mutateOp F) (o :: os) s = Fallible.forEach (mutateOp F) os s' := by
  rcases hv : evaluateNode F o.toNode s with ⟨x | v, s₁⟩
  · have hm : mutateOp F o s = (.error x, s₁) := Fallible.run_bind_of_error hv
    exact .inl ⟨x, s₁, hm, by simp only [mutations, hv], Fallible.run_bind_of_error hm⟩
  · rcases hw : onStore (assign F o.mutateAttr v) s₁ with ⟨x | ⟨⟩, s₂⟩
    · have hm : mutateOp F o s = (.error x, s₂) := (Fallible.run_bind_of_ok hv).trans hw
      exact .inl ⟨x, s₂, hm, by simp only [mutations, hv, hw], Fallible.run_bind_of_error hm⟩
    · have hm : mutateOp F o s = (.ok (), s₂) := (Fallible.run_bind_of_ok hv).trans hw
      exact .inr ⟨v, s₂, rfl, hm, by simp only [mutations, hv, hw], Fallible.run_bind_of_ok hm⟩

namespace AttributeMap
variable {F}

/-- What is stored is the given value in the type declared for the attribute. -/
theorem Declared.converted_eq_ok {d : SimulationDef} {m : AttributeMap} (hd : m.Declared d)
    {ref : AttributeRef} {v w : Value} (h : m.converted F ref v = .ok w) :
    ∃ t, d.declaredType ref = some t ∧ UserComponent.Converted F t v w := by
  obtain ⟨cd, hcd, hst⟩ := Fallible.result_bind_eq_ok_iff.mp h
  obtain ⟨t, htype, hconv⟩ := UserComponent.storedValue_eq_ok F hst
  rw [hd _ _ cd hcd] at htype
  exact ⟨t, htype, hconv⟩

/-- A mutation replaces the latest value of its attribute. -/
theorem Tracks.mutateOp {last : AttributeRef → Option Value} {o : Mutate}
    {s s' : Env AttributeMap} {v : Value} (ht : s.store.Tracks F last)
    (hv : (evaluateNode F o.toNode s).1 = .ok v) (h : Bentobox.mutateOp F o s = (.ok (), s')) :
    s'.store.layout = s.store.layout ∧
      s'.store.Tracks F fun ref => if ref = o.mutateAttr then some v else last ref := by
  obtain ⟨v', w, gen, hv', hw, rfl⟩ := (mutateOp_eq_ok_iff F).mp h
  rw [hv'] at hv
  cases hv
  refine ⟨rfl, fun ref => ?_⟩
  by_cases href : ref = o.mutateAttr
  · subst href
    simp only [if_true]
    obtain ⟨cd, hcd, -⟩ := Fallible.result_bind_eq_ok_iff.mp hw
    refine ⟨w, hw, ?_⟩
    rw [get, layout_set, hcd, Fallible.ok_bind, value_set_self, orNotSet]
  · have := ht ref
    simp only [href, if_false, value_set_ne _ href, get_set_ne _ href]
    exact this

/-- Running outputs keeps the layout and follows their mutations. -/
theorem Tracks.forEach {last : AttributeRef → Option Value} {s : Env AttributeMap}
    (ht : s.store.Tracks F last) (os : List Mutate) (name : String) :
    let s' := (Fallible.forEach (Bentobox.mutateOp F) os s).2
    s'.store.layout = s.store.layout ∧ s'.store.Tracks F fun ref =>
      History.replay Event.effect (name, ref) (last ref)
        (mutatedEvents name (mutations F os s)) := by
  induction os generalizing s last with
  | nil => exact ⟨rfl, ht⟩
  | cons o os ih =>
    rcases forEach_mutateOp_cons F o os s with ⟨x, s', hm, hmut, hrun⟩ | ⟨v, s', hv, hm, hmut, hrun⟩
    · have hstore : s'.store = s.store := mutateOp_error_store F hm
      simp only [hrun, hmut]
      rw [hstore]
      exact ⟨rfl, ht⟩
    · obtain ⟨hl', ht'⟩ := ht.mutateOp hv hm
      simp only [hrun, hmut]
      obtain ⟨h₁, h₂⟩ := ih ht'
      refine ⟨h₁.trans hl', fun ref => ?_⟩
      have heff : (Event.effect (.mutated name o.mutateAttr v) (name, ref)).getD (last ref) =
          if ref = o.mutateAttr then some v else last ref := by
        by_cases href : ref = o.mutateAttr
        · simp [Event.effect, href]
        · simp [Event.effect, href, Ne.symm href]
      have := h₂ ref
      simp only [mutatedEvents, List.map_cons, History.replay_cons, heff] at this ⊢
      exact this

end AttributeMap
end Tracks

/-- The mutations of one simulation do not concern another one. -/
theorem replay_mutatedEvents_ne {name name' : String} (h : name' ≠ name)
    (ms : List (AttributeRef × Value)) (ref : AttributeRef) (x : Option Value) :
    History.replay Event.effect (name', ref) x (mutatedEvents name ms) = x := by
  refine History.replay_of_no_effect _ (fun ev hev => ?_) x
  obtain ⟨m, -, rfl⟩ := List.mem_map.mp hev
  simp [Event.effect, Ne.symm h]

namespace Engine
variable {F : FloatOps}

/-- The registered simulations hold what the history says, and of others it says nothing. -/
def Tracks (F : FloatOps) (h : List Event) (e : Engine AttributeMap) : Prop :=
  ∀ name, match e.sims.get? name with
    | none => ∀ ref, lastMutation h name ref = none
    | some sim => sim.store.Declared sim.simDef ∧ sim.store.Tracks F (lastMutation h name)

theorem Tracks.new (gen : ℕ) : Tracks F [] (new gen) := fun _ _ => rfl

/-- Running outputs on a simulation, after the history `h'` in which it starts. -/
theorem Tracks.register {h h' : List Event} {e : Engine AttributeMap} (he : Tracks F h e)
    {name : String} (sim : Simulation AttributeMap) (os : List Mutate)
    (hother : ∀ name', name' ≠ name → ∀ ref, lastMutation h' name' ref = lastMutation h name' ref)
    (hd : sim.store.Declared sim.simDef)
    (ht : sim.store.Tracks F (lastMutation h' name)) :
    Tracks F (h' ++ mutatedEvents name (mutations F os ⟨sim.store, e.gen⟩))
      (e.register name sim (Fallible.forEach (mutateOp F) os ⟨sim.store, e.gen⟩).2) := by
  intro name'
  by_cases hn : name' = name
  · subst hn
    have hrun := ht.forEach (s := ⟨sim.store, e.gen⟩) os name'
    simp only [Engine.register, OrderedDict.get?_insert_self]
    refine ⟨fun n e' cd hcd => hd n e' cd (hrun.1 ▸ hcd), fun ref => ?_⟩
    rw [lastMutation, History.replay_append]
    exact hrun.2 ref
  · simp only [Engine.register, OrderedDict.get?_insert_ne _ hn]
    have hlast : ∀ ref, lastMutation
        (h' ++ mutatedEvents name (mutations F os ⟨sim.store, e.gen⟩)) name' ref =
        lastMutation h name' ref := fun ref => by
      rw [lastMutation, History.replay_append, replay_mutatedEvents_ne hn]
      exact hother name' hn ref
    have := he name'
    simp only [AttributeMap.Tracks, hlast] at this ⊢
    exact this

/-- The simulations that a request does not name keep their history. -/
theorem lastMutation_append_created {h : List Event} {name name' : String} (hn : name' ≠ name)
    (ref : AttributeRef) : lastMutation (h ++ [.created name]) name' ref =
      lastMutation h name' ref := by
  rw [lastMutation, History.replay_append, History.replay_of_no_effect]
  · rfl
  · intro ev hev
    rw [List.mem_singleton.mp hev]
    simp [Event.effect, Ne.symm hn]

/-- Registering a simulation again after it was read changes nothing. -/
theorem register_self {S : Type} {e : Engine S} {name : String} {sim : Simulation S}
    (h : e.sims.get? name = some sim) : e.register name sim ⟨sim.store, e.gen⟩ = e := by
  simp only [Engine.register, OrderedDict.insert_eq_self h]

/-- **Every request extends the history by its events.** -/
theorem Tracks.step {h : List Event} {e e' : Engine AttributeMap} (he : Tracks F h e)
    {r : Request} {o : Response} (hr : step F e r = some (o, e')) :
    Tracks F (h ++ events F e r) e' := by
  cases step_transition F hr with
  | idle hidle => simpa [events_of_idle F hidle] using he
  | @created d simDef store hlock hc =>
    obtain ⟨stores, hstores, -, hnone, hdecl⟩ := construct_spec d
    cases hc.symm.trans (construct_view hstores)
    simp only [events, if_neg hlock, hc]
    have hcreated : h ++ Event.created d.name :: mutatedEvents d.name
        (mutations F d.withIds.initGraph.outputs ⟨stores.view, e.gen⟩) =
        (h ++ [.created d.name]) ++ mutatedEvents d.name
        (mutations F d.withIds.initGraph.outputs ⟨stores.view, e.gen⟩) := by simp
    rw [hcreated]
    refine he.register ⟨d.withIds, stores.view, false⟩ _
      (fun name' hn ref => lastMutation_append_created hn ref) hdecl fun ref => ?_
    have hlast : lastMutation (h ++ [.created d.name]) d.name ref = none := by
      rw [lastMutation, History.replay_append]
      simp [Event.effect]
    rw [hlast]
    exact hnone ref
  | @dropped name sim hs =>
    intro name'
    simp only [events, hs, OrderedDict.get?_erase]
    by_cases hn : name' = name
    · simp only [hn, if_true]
      intro ref
      rw [lastMutation, History.replay_append]
      simp [Event.effect]
    · have hlast : ∀ ref, lastMutation (h ++ [.dropped name]) name' ref =
          lastMutation h name' ref := fun ref => by
        rw [lastMutation, History.replay_append, History.replay_cons]
        simp [Event.effect, Ne.symm hn, lastMutation]
      have := he name'
      simp only [hn, if_false, AttributeMap.Tracks, hlast] at this ⊢
      exact this
  | @stepped name sim hs =>
    have hsim := he name
    simp only [hs] at hsim
    simp only [events, hs, runOn, runSystems_state]
    exact he.register { sim with locked := true } _ (fun _ _ _ => rfl) hsim.1 hsim.2
  | @retrieved name attr sim hs =>
    have hsame : (runOn (onStore (retrieve attr)) name sim e).2 = e := register_self hs
    rw [hsame]
    simpa [events] using he
  | @assigned name attr v sim hs =>
    have hsim := he name
    simp only [hs] at hsim
    rw [runOn, ← Fallible.forEach_singleton (mutateOp F)]
    simp only [events, hs]
    exact he.register sim _ (fun _ _ _ => rfl) hsim.1 hsim.2

/-- **Along every run** the engine holds what the history of the run says. -/
theorem tracks_run {e e' : Engine AttributeMap} {h : List Event} (he : Tracks F h e)
    {requests : List Request} {os : List Response} (hr : run F e requests = some (os, e')) :
    Tracks F (h ++ Bentobox.history F e requests) e' := by
  induction requests generalizing e h os with
  | nil => cases hr; simpa [Bentobox.history] using he
  | cons r rs ih =>
    obtain ⟨o, e₁, os', h₁, h₂, rfl⟩ := Machine.run_cons_eq_some_iff.mp hr
    rw [Bentobox.history, h₁]
    simpa using ih (he.step h₁) h₂

/-! ## Requests that change no answer -/

/-- On maps, reading an attribute changes nothing. -/
theorem getAttribute_state {e e' : Engine AttributeMap} {name : String} {ref : AttributeRef}
    {o : Response} (h : Engine.step F e (.getAttribute name ref) = some (o, e')) : e' = e := by
  cases step_transition F h with
  | idle _ => rfl
  | retrieved hs => exact register_self hs

/-- On maps, writing an attribute changes nothing when it fails. -/
theorem setAttribute_state {e e' : Engine AttributeMap} {name message : String}
    {ref : AttributeRef} {v : Value} {code : StatusCode}
    (h : Engine.step F e (.setAttribute name ref v) = some (.error code message, e')) :
    e' = e := by
  simp only [Engine.step, setAttribute] at h
  cases hs : e.sims.get? name with
  | none => rw [hs] at h; cases h; rfl
  | some sim =>
    simp only [hs] at h
    obtain ⟨x, hr⟩ := answer_eq_error (fun _ => rfl) h
    have hm : mutateOp F ⟨ref, .const v⟩ (⟨sim.store, e.gen⟩ : Env AttributeMap) =
        onStore (assign F ref v) ⟨sim.store, e.gen⟩ := rfl
    rw [AttributeMap.onStore_assign] at hm
    rw [runOn, hm] at hr
    cases hc : sim.store.converted F ref v with
    | ok w => rw [hc] at hr; cases hr
    | error y =>
      rw [hc] at hr
      cases hr
      exact register_self hs

/-- The answers to requests. -/
def answers {S : Type} [SimulationStore S] (F : FloatOps) (e : Engine S)
    (requests : List Request) : Option (List Response) :=
  (run F e requests).map Prod.fst

theorem answers_view {e : Engine Stores} (he : e.All Stores.Wf) (requests : List Request) :
    answers F e.view requests = answers F e requests := by
  rw [answers, answers, Engine.view, run_map F stores_refine_simulation he, Option.map_map]
  rfl

/-- **No later answer** depends on a `GetAttribute` or on a `SetAttribute` that failed. -/
theorem answers_of_unchanged {e e' : Engine Stores} (he : e.All Stores.Wf) {r : Request}
    {o : Response} (hr : Engine.step F e r = some (o, e'))
    (hkind : (∃ name ref, r = .getAttribute name ref) ∨
      (∃ name ref v, r = .setAttribute name ref v) ∧ o.isError = true)
    (later : List Request) : answers F e' later = answers F e later := by
  have hview := step_view he hr
  have hsame : e'.view = e.view := by
    rcases hkind with ⟨name, ref, rfl⟩ | ⟨⟨name, ref, v, rfl⟩, ho⟩
    · exact getAttribute_state hview
    · cases o with
      | error code message => exact setAttribute_state hview
      | _ => cases ho
  rw [← answers_view he, ← answers_view (step_all F stores_refine_simulation he hr), hsame]

/-! ## Attributes that a request can change -/

/-- What `GetAttribute` finds, absent when there is no such simulation. -/
def found {S : Type} [AttributeStore S] (e : Engine S) (name : String) (ref : AttributeRef) :
    Option (Except Fault Value) :=
  (e.sims.get? name).map fun sim => reading sim.store ref

/-- Outputs change the reading of no attribute that they do not mutate. -/
theorem get_forEach_mutateOp {os : List Mutate} {s : Env AttributeMap} {ref : AttributeRef}
    (h : ∀ m ∈ mutations F os s, m.1 ≠ ref) :
    (Fallible.forEach (mutateOp F) os s).2.store.get ref = s.store.get ref := by
  induction os generalizing s with
  | nil => rfl
  | cons o os ih =>
    rcases forEach_mutateOp_cons F o os s with ⟨x, s', hm, hmut, hrun⟩ | ⟨v, s', hv, hm, hmut, hrun⟩
    · rw [hrun, AttributeMap.mutateOp_error_store F hm]
    · rw [hmut] at h
      obtain ⟨v', w, gen, -, -, rfl⟩ := (AttributeMap.mutateOp_eq_ok_iff F).mp hm
      rw [hrun, ih fun m hmem => h m (List.mem_cons_of_mem _ hmem)]
      exact AttributeMap.get_set_ne _ (Ne.symm (h _ List.mem_cons_self)) _

theorem found_register {e : Engine AttributeMap} {name name' : String} {ref : AttributeRef}
    {sim : Simulation AttributeMap} (hs : e.sims.get? name = some sim) {os : List Mutate}
    (h : ∀ ev ∈ mutatedEvents name (mutations F os ⟨sim.store, e.gen⟩),
      ev.effect (name', ref) = none) (locked : Bool) :
    found (e.register name { sim with locked := locked }
      (Fallible.forEach (mutateOp F) os ⟨sim.store, e.gen⟩).2) name' ref = found e name' ref := by
  unfold found Engine.register
  rw [OrderedDict.get?_insert]
  split_ifs with hn
  · subst hn
    have hne : ∀ m ∈ mutations F os (⟨sim.store, e.gen⟩ : Env AttributeMap), m.1 ≠ ref := by
      rintro m hm rfl
      have := h _ (List.mem_map_of_mem (f := fun m : AttributeRef × Value =>
        Event.mutated name' m.1 m.2) hm)
      simp [Event.effect] at this
    rw [hs]
    exact congrArg some (get_forEach_mutateOp hne)
  · rfl

/-- A request whose events do not concern an attribute leaves what is found there. -/
theorem found_step {e e' : Engine AttributeMap} {r : Request} {o : Response}
    (hr : Engine.step F e r = some (o, e')) {name : String} {ref : AttributeRef}
    (h : ∀ ev ∈ events F e r, ev.effect (name, ref) = none) :
    found e' name ref = found e name ref := by
  cases step_transition F hr with
  | idle _ => rfl
  | @created d simDef store hlock hc =>
    simp only [events, if_neg hlock, hc] at h
    have hn : name ≠ d.name := by
      rintro rfl
      have := h _ List.mem_cons_self
      simp [Event.effect] at this
    simp only [found, runOn, Engine.register, OrderedDict.get?_insert_ne _ hn]
  | @dropped n sim hs =>
    simp only [events, hs] at h
    have hn : name ≠ n := by
      rintro rfl
      have := h _ List.mem_cons_self
      simp [Event.effect] at this
    simp only [found, OrderedDict.get?_erase_ne _ hn]
  | @stepped n sim hs =>
    simp only [events, hs] at h
    simp only [runOn, runSystems_state]
    exact found_register hs h true
  | retrieved _ => rw [getAttribute_state hr]
  | @assigned n ref' v sim hs =>
    simp only [events, hs] at h
    rw [runOn, ← Fallible.forEach_singleton (mutateOp F)]
    exact found_register hs h sim.locked

/-! ## The engine as a map of attributes -/

/-- The reply of `GetAttribute` to what it finds. -/
def attributeReply : Option (Except Fault Value) → Option Response
  | none => some simNotFound
  | some (.ok v) => some (.value v)
  | some (.error (.exception x)) => some (.error .notFound (formatError
      "RetrieveOp failed when retrieving requested attribute." x))
  | some (.error .undefined) => none

theorem answers_getAttribute {S : Type} [SimulationStore S] (e : Engine S) (name : String)
    (ref : AttributeRef) : (Engine.step F e (.getAttribute name ref)).map Prod.fst =
      attributeReply (found e name ref) := by
  simp only [Engine.step, getAttribute, found]
  cases e.sims.get? name with
  | none => rfl
  | some sim =>
    simp only [Option.map_some, answer, runOn, onStore, reading]
    rcases (retrieve ref sim.store).1 with x | v
    · cases x <;> rfl
    · rfl

theorem attributeReply_eq_value_iff {r : Option (Except Fault Value)} {w : Value} :
    attributeReply r = some (.value w) ↔ r = some (.ok w) := by
  rcases r with _ | _ | v
  · simp [attributeReply, simNotFound]
  · rename_i x
    cases x <;> simp [attributeReply]
  · simp [attributeReply]

theorem found_view {e : Engine Stores} (he : e.All Stores.Wf) (name : String)
    (ref : AttributeRef) : found e.view name ref = found e name ref := by
  unfold found Engine.view
  rw [get?_map, Option.map_map]
  cases hs : e.sims.get? name with
  | none => rfl
  | some sim => exact congrArg some (reading_eq_get (he name sim hs) ref).symm

/-- In a history `v` is the value of the latest mutation of an attribute: it is followed by no
other one, and its simulation is neither dropped nor created again. -/
def LatestMutation (h : List Event) (name : String) (ref : AttributeRef) (v : Value) : Prop :=
  ∃ older newer, h = older ++ .mutated name ref v :: newer ∧
    ∀ ev ∈ newer, ev.effect (name, ref) = none

theorem lastMutation_eq_some_iff {h : List Event} {name : String} {ref : AttributeRef}
    {v : Value} : lastMutation h name ref = some v ↔ LatestMutation h name ref v := by
  rw [lastMutation, History.replay_none_eq_some_iff]
  constructor
  · rintro ⟨older, ev, newer, rfl, hset, hnewer⟩
    refine ⟨older, newer, ?_, hnewer⟩
    cases ev with
    | created n => simp only [Event.effect] at hset; split_ifs at hset; cases hset
    | dropped n => simp only [Event.effect] at hset; split_ifs at hset; cases hset
    | mutated n r u =>
      simp only [Event.effect] at hset
      split_ifs at hset with hk
      cases hk
      cases hset
      rfl
  · rintro ⟨older, newer, rfl, hnewer⟩
    exact ⟨older, _, newer, rfl, by simp [Event.effect], hnewer⟩

/-- A conversion has one result. -/
theorem converted_unique {t : DataType} {v w w' : Value} (h : UserComponent.Converted F t v w)
    (h' : UserComponent.Converted F t v w') : w = w' := by
  rw [UserComponent.Converted] at h h'
  cases hx : v.getVal? Scalar.number? with
  | none => rw [hx] at h h'; exact h.trans h'.symm
  | some x =>
    simp only [hx] at h h'
    split_ifs at h h'
    · obtain ⟨y, hy, -, rfl⟩ := h
      obtain ⟨y', hy', -, rfl⟩ := h'
      rw [hy] at hy'
      cases hy'
      rfl
    · exact h.trans h'.symm

theorem Tracks.found_eq_ok_iff {h : List Event} {e : Engine AttributeMap} (he : Tracks F h e)
    {name : String} {ref : AttributeRef} {w : Value} : found e name ref = some (.ok w) ↔
      ∃ sim v t, e.sims.get? name = some sim ∧ LatestMutation h name ref v ∧
        sim.simDef.declaredType ref = some t ∧ UserComponent.Converted F t v w := by
  have hname := he name
  rw [found]
  cases hs : e.sims.get? name with
  | none => simp
  | some sim =>
    rw [hs] at hname
    have hlast := hname.2 ref
    simp only [Option.map_some, Option.some.injEq, reading_map]
    cases hl : lastMutation h name ref with
    | none =>
      simp only [hl] at hlast
      constructor
      · intro hget
        obtain ⟨cd, -, hv⟩ := Fallible.result_bind_eq_ok_iff.mp hget
        rw [hlast] at hv
        cases hv
      · rintro ⟨sim', v, t, -, hlatest, -⟩
        rw [← lastMutation_eq_some_iff, hl] at hlatest
        cases hlatest
    | some v =>
      simp only [hl] at hlast
      obtain ⟨w', hw', hget⟩ := hlast
      obtain ⟨t, ht, hconv⟩ := hname.1.converted_eq_ok hw'
      rw [hget]
      constructor
      · intro hw
        cases hw
        exact ⟨sim, v, t, rfl, lastMutation_eq_some_iff.mp hl, ht, hconv⟩
      · rintro ⟨sim', v', t', rfl, hlatest, ht', hconv'⟩
        rw [← lastMutation_eq_some_iff, hl] at hlatest
        rw [ht] at ht'
        cases hlatest
        cases ht'
        rw [converted_unique hconv hconv']

/-- What was mutated and not cleared is found. -/
theorem Tracks.exists_found_iff {h : List Event} {e : Engine AttributeMap} (he : Tracks F h e)
    {name : String} {ref : AttributeRef} :
    (∃ w, found e name ref = some (.ok w)) ↔ ∃ v, LatestMutation h name ref v := by
  constructor
  · rintro ⟨w, hw⟩
    obtain ⟨sim, v, t, -, hlatest, -⟩ := he.found_eq_ok_iff.mp hw
    exact ⟨v, hlatest⟩
  · rintro ⟨v, hlatest⟩
    have hl := lastMutation_eq_some_iff.mpr hlatest
    have hname := he name
    cases hs : e.sims.get? name with
    | none =>
      rw [hs] at hname
      rw [hname ref] at hl
      cases hl
    | some sim =>
      rw [hs] at hname
      have hlast := hname.2 ref
      simp only [hl] at hlast
      obtain ⟨w, -, hget⟩ := hlast
      exact ⟨w, by simp only [found, hs, Option.map_some, reading_map, hget]⟩

/-- **The engine refines a map of attributes.** After any run from a fresh engine,
`GetAttribute` answers a value exactly when the attribute was mutated since its simulation was
created, and this is the latest value in the type declared for the attribute; a `GetAttribute` or
a failed `SetAttribute` changes no later answer; and a request changes the answer for no
attribute but those it mutates or whose simulation it creates or drops. -/
theorem engine_refines_map {gen : ℕ} {requests : List Request} {responses : List Response}
    {e : Engine Stores} (hrun : run F (new gen) requests = some (responses, e)) :
    (∀ name ref,
      (∃ w, (Engine.step F e (.getAttribute name ref)).map Prod.fst = some (.value w)) ↔
        ∃ v, LatestMutation (Bentobox.history F (new gen : Engine Stores) requests) name ref v) ∧
    (∀ name ref w, (Engine.step F e (.getAttribute name ref)).map Prod.fst = some (.value w) ↔
      ∃ sim v t, e.sims.get? name = some sim ∧
        LatestMutation (Bentobox.history F (new gen : Engine Stores) requests) name ref v ∧
        sim.simDef.declaredType ref = some t ∧ UserComponent.Converted F t v w) ∧
    (∀ r o e', Engine.step F e r = some (o, e') →
      ((∃ name ref, r = .getAttribute name ref) ∨
        (∃ name ref v, r = .setAttribute name ref v) ∧ o.isError = true) →
      ∀ later, answers F e' later = answers F e later) ∧
    ∀ r o e', Engine.step F e r = some (o, e') → ∀ name ref,
      (∀ ev ∈ events F e r, ev.effect (name, ref) = none) →
      (Engine.step F e' (.getAttribute name ref)).map Prod.fst =
        (Engine.step F e (.getAttribute name ref)).map Prod.fst := by
  have hwf : e.All Stores.Wf := Reachable.wf ⟨gen, requests, responses, hrun⟩
  have hnew : (new gen : Engine Stores).All Stores.Wf := All.new gen
  have ht : Tracks F (Bentobox.history F (new gen : Engine Stores) requests) e.view := by
    have hview : run F (new gen : Engine Stores).view requests = some (responses, e.view) := by
      rw [Engine.view, run_map F stores_refine_simulation hnew, hrun]
      rfl
    rw [← history_map F stores_refine_simulation hnew requests]
    exact tracks_run (h := []) (Tracks.new gen) hview
  refine ⟨fun name ref => ?_, fun name ref w => ?_,
    fun r o e' hr hkind => answers_of_unchanged hwf hr hkind, fun r o e' hr name ref h => ?_⟩
  · rw [← ht.exists_found_iff]
    refine exists_congr fun w => ?_
    rw [answers_getAttribute, attributeReply_eq_value_iff, ← found_view hwf]
  · rw [answers_getAttribute, attributeReply_eq_value_iff, ← found_view hwf,
      ht.found_eq_ok_iff]
    constructor
    · rintro ⟨sim, v, t, hs, hrest⟩
      rw [Engine.view, get?_map, Option.map_eq_some_iff] at hs
      obtain ⟨sim', hs', rfl⟩ := hs
      exact ⟨sim', v, t, hs', hrest⟩
    · rintro ⟨sim, v, t, hs, hrest⟩
      exact ⟨sim.map Stores.view, v, t, get?_view hs, hrest⟩
  · have hview := step_view hwf hr
    have hwf' := step_all F stores_refine_simulation hwf hr
    have hev : ∀ ev ∈ events F e.view r, ev.effect (name, ref) = none := by
      rw [Engine.view, events_map F stores_refine_simulation hwf]
      exact h
    rw [answers_getAttribute, answers_getAttribute, ← found_view hwf, ← found_view hwf',
      found_step hview hev]

/-- The value that the failing step of `twoCells` has stored is its latest mutation. -/
theorem engine_refines_map_twoCells : ∃ v t,
    LatestMutation (Bentobox.history default (new 0 : Engine Stores)
      [.applySimulation (twoCells false), .stepSimulation "s"]) "s" ⟨1, "C", "a"⟩ v ∧
    (twoCells false).declaredType ⟨1, "C", "a"⟩ = some t ∧
    UserComponent.Converted default t v (setVal (.number (.int32 1))) := by
  have hrun : ∃ responses e, run default (new 0 : Engine Stores)
      [.applySimulation (twoCells false), .stepSimulation "s"] = some (responses, e) ∧
      (e.sims.get? "s").map Simulation.simDef = some (twoCells false) ∧
      (Engine.step default e (.getAttribute "s" ⟨1, "C", "a"⟩)).map Prod.fst =
        some (.value (setVal (.number (.int32 1)))) := ⟨_, _, rfl, rfl, rfl⟩
  obtain ⟨responses, e, hrun, hdef, hget⟩ := hrun
  obtain ⟨sim, v, t, hs, hlatest, ht, hconv⟩ := ((engine_refines_map hrun).2.1 _ _ _).mp hget
  rw [hs, Option.map_some, Option.some.injEq] at hdef
  exact ⟨v, t, hlatest, hdef ▸ ht, hconv⟩

end Engine
end Bentobox
