import Bentobox.Engine.Answers
import Bentobox.Engine.Settling
import Bentobox.Engine.WellFormed

/-!
# Writing values back

A value is converted to the type of its attribute when it is stored, and converting it once more
changes nothing. So the values that the attributes of a simulation have are accepted as they are
(`AttributeMap.Stable`), whatever the requests and the graphs before were, and a client that
writes back what it has read changes nothing (`Engine.setAttribute_getAttribute`).
-/
namespace Bentobox

open AttributeStore SimulationStore

/-! ## Conversions -/

namespace UserComponent
variable {F : FloatOps}

/-- A number of the type is not changed by the conversion. -/
theorem convert_type (n : Number) : convert F n n.type = .ok (.number n) := by
  cases n <;> rfl

/-- **A stored value is stored as it is**, by any floating-point operations. -/
theorem storedValue_stored (G : FloatOps) {compDef : ComponentDef} {a : String} {v w : Value}
    (h : storedValue F compDef a v = .ok w) : storedValue G compDef a w = .ok w := by
  obtain ⟨t, hc, hs⟩ := Fallible.result_bind_eq_ok_iff.mp h
  obtain ⟨hschema, x, rfl⟩ := checkValue_eq_ok_iff.mp hc
  rw [valueToSet] at hs
  split_ifs at hs with harr hnum hty
  · cases hs
    rw [storedValue, hc, Fallible.ok_bind, valueToSet, if_pos harr]
  · obtain ⟨y, hy, rfl⟩ := Fallible.map_eq_ok_iff.mp hs
    obtain ⟨n, -, hconv⟩ := runFnWithVal_eq_ok_iff.mp hy
    have hcast : convert F n t.getPrimitive = .ok y := by
      simpa [runFnWithValType, harr, hnum.1] using hconv
    -- the result is a number of the type, so it is converted to itself
    have htype : y.type = t.getPrimitive := type_of_convert F hcast
    obtain ⟨m, rfl⟩ : ∃ m, y = .number m := by
      cases y with
      | number m => exact ⟨m, rfl⟩
      | str s | bool b =>
        rw [← htype] at hnum
        simp [Scalar.type, numericTypes] at hnum
    have hself : convert G m t.getPrimitive = .ok (.number m) := htype ▸ convert_type m
    rw [storedValue, checkValue_eq_ok_iff.mpr ⟨hschema, _, rfl⟩, Fallible.ok_bind, valueToSet,
      if_neg harr, if_pos ⟨hnum.1, by simp [Scalar.number?]⟩]
    simp [runFnWithVal, runFnWithValType, harr, hnum.1, Scalar.number?, hself]
  · cases hs
    rw [storedValue, hc, Fallible.ok_bind, valueToSet, if_neg harr, if_neg hnum, if_pos hty]

end UserComponent

namespace AttributeMap
variable {F : FloatOps} {m : AttributeMap}

/-- What is read is the value. -/
theorem value_of_get {ref : AttributeRef} {v : Value} (h : m.get ref = .ok v) :
    m.value ref = some v := by
  obtain ⟨compDef, -, hset⟩ := Fallible.result_bind_eq_ok_iff.mp h
  cases hv : m.value ref with
  | none =>
    rw [hv] at hset
    cases hset
  | some w =>
    rw [hv] at hset
    cases hset
    rfl

/-- The attributes take the values that they have. -/
def Stable (m : AttributeMap) : Prop :=
  ∀ ref v, m.value ref = some v → ∀ F, m.converted F ref v = .ok v

theorem Stable.set (hm : m.Stable) {ref : AttributeRef} {v w : Value}
    (h : m.converted F ref v = .ok w) : (m.set ref w).Stable := by
  intro r u hu G
  by_cases hr : r = ref
  · subst hr
    rw [value_set_self] at hu
    cases hu
    obtain ⟨compDef, hlayout, hstored⟩ := Fallible.result_bind_eq_ok_iff.mp h
    rw [converted, layout_set, hlayout, Fallible.ok_bind]
    exact UserComponent.storedValue_stored G hstored
  · rw [value_set_ne m hr] at hu
    exact hm r u hu G

/-- Reading and writing keep what the attributes take. -/
theorem stable_refines : StoreRefines Stable (id : AttributeMap → AttributeMap) := by
  refine ⟨fun ref m hm => ⟨rfl, rfl, hm⟩, fun F ref v m hm => ⟨rfl, rfl, ?_⟩⟩
  change (put F ref v m).2.Stable
  rw [put]
  cases hw : m.converted F ref v with
  | error e => exact hm
  | ok w => exact hm.set hw

theorem stable_of_unset (h : ∀ ref, m.value ref = none) : m.Stable := by
  intro ref v hv
  rw [h ref] at hv
  cases hv

end AttributeMap

theorem stable_refines_simulation :
    SimulationRefines AttributeMap.Stable (id : AttributeMap → AttributeMap) where
  toStoreRefines := AttributeMap.stable_refines
  construct_eq d := by
    cases (construct d : Except Fault (SimulationDef × AttributeMap)) <;> rfl
  constructed d d' m h := by
    obtain ⟨stores, hc, -, hnone, -⟩ := construct_spec d
    rw [construct_view hc] at h
    cases h
    exact AttributeMap.stable_of_unset hnone

/-- Consistent stores whose attributes take the values that they have. -/
structure Stores.Steady (s : Stores) : Prop where
  wf : s.Wf
  stable : s.view.Stable

/-- Running a graph leaves such stores. -/
theorem Stores.Steady.runGraph {F : FloatOps} {s : Env Stores} (hs : s.store.Steady)
    (graph : Graph) : (Bentobox.runGraph F graph s).2.store.Steady := by
  have hrefines := runGraph_refines F Stores.stores_refine_map graph
  refine ⟨hrefines.keeps s hs.wf, ?_⟩
  have hview : (Bentobox.runGraph F graph (s.map Stores.view)).2 =
      (Bentobox.runGraph F graph s).2.map Stores.view := congrArg Prod.snd (hrefines.eq hs.wf)
  have hstable := (runGraph_refines F AttributeMap.stable_refines graph).keeps (s.map Stores.view)
    hs.stable
  rw [hview] at hstable
  exact hstable

namespace Engine
variable {F : FloatOps}

/-- The simulations of a reachable engine have such stores. -/
theorem Reachable.steady {e : Engine Stores} (he : e.Reachable F) {name : String}
    {sim : Simulation Stores} (hs : e.sims.get? name = some sim) : sim.store.Steady :=
  ⟨he.wf name sim hs, he.view.all F stable_refines_simulation name _ (get?_view hs)⟩

/-- A map that takes the value returns to itself. -/
theorem mutateOp_of_stable {m : AttributeMap} (hm : m.Stable) {ref : AttributeRef} {v : Value}
    (h : m.get ref = .ok v) (gen : ℕ) :
    mutateOp F ⟨ref, .const v⟩ (⟨m, gen⟩ : Env AttributeMap) = (.ok (), ⟨m, gen⟩) := by
  have hvalue := AttributeMap.value_of_get h
  have hwrite : mutateOp F ⟨ref, .const v⟩ (⟨m, gen⟩ : Env AttributeMap) =
      onStore (AttributeStore.assign F ref v) ⟨m, gen⟩ := rfl
  have hself : m.set ref v = m := AttributeMap.set_eq_self hvalue
  rw [hwrite, AttributeMap.onStore_assign, hm ref v hvalue F]
  exact congrArg (fun m' => (Except.ok (), (⟨m', gen⟩ : Env AttributeMap))) hself

/-- **Writing back what was read** succeeds, and no reply to a later request is different. -/
theorem setAttribute_getAttribute {e e₁ : Engine Stores} (he : e.Reachable F) {name : String}
    {ref : AttributeRef} {v : Value}
    (hget : step F e (.getAttribute name ref) = some (.value v, e₁)) :
    ∃ e₂, step F e₁ (.setAttribute name ref v) = some (.empty, e₂) ∧
      ∀ requests, (run F e₂ requests).map Prod.fst = (run F e requests).map Prod.fst := by
  have hwf₁ : e₁.All Stores.Wf := step_all F stores_refine_simulation he.wf hget
  have hget' := step_view he.wf hget
  have hview : e₁.view = e.view := getAttribute_state hget'
  have hset : step F e₁.view (.setAttribute name ref v) = some (.empty, e₁.view) := by
    rw [hview]
    have hreply := answers_getAttribute (F := F) e.view name ref
    rw [hget', Option.map_some] at hreply
    obtain ⟨sim, hs, hread⟩ :=
      Option.map_eq_some_iff.mp (attributeReply_eq_value_iff.mp hreply.symm)
    have hstable : sim.store.Stable := he.view.all F stable_refines_simulation name sim hs
    rw [reading_map] at hread
    simp only [step, setAttribute, hs, runOn, mutateOp_of_stable hstable hread, answer]
    rw [register_self hs]
  obtain ⟨e₂, hstep, hview₂, hwf₂⟩ := step_of_view hwf₁ hset
  refine ⟨e₂, hstep, fun requests => ?_⟩
  have hboth : ∀ {e : Engine Stores}, e.All Stores.Wf →
      (run F e requests).map Prod.fst = (run F e.view requests).map Prod.fst := by
    intro e he
    rw [view, run_map F stores_refine_simulation he, Option.map_map]
    rfl
  rw [hboth hwf₂, hboth he.wf, hview₂, hview]

/-- What the failing step of `twoCells` has stored is read, and written back. -/
theorem setAttribute_getAttribute_twoCells : ∃ (e e₁ e₂ : Engine Stores) (v : Value),
    (run default (new 0 : Engine Stores)
      [.applySimulation (twoCells false), .stepSimulation "s"]).map Prod.snd = some e ∧
    step default e (.getAttribute "s" ⟨1, "C", "a"⟩) = some (.value v, e₁) ∧
    step default e₁ (.setAttribute "s" ⟨1, "C", "a"⟩ v) = some (.empty, e₂) := by
  obtain ⟨responses, e, hrun, e₁, hget⟩ : ∃ responses e, run default (new 0 : Engine Stores)
      [.applySimulation (twoCells false), .stepSimulation "s"] = some (responses, e) ∧
      ∃ e₁, step default e (.getAttribute "s" ⟨1, "C", "a"⟩) =
        some (.value (setVal (.number (.int32 1))), e₁) := ⟨_, _, rfl, _, rfl⟩
  obtain ⟨e₂, hset, -⟩ := setAttribute_getAttribute ⟨0, _, _, hrun⟩ hget
  exact ⟨e, e₁, e₂, _, by rw [hrun, Option.map_some], hget, hset⟩

end Engine
end Bentobox
