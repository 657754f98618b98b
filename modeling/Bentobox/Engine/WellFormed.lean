import Bentobox.Engine.Conformity
import Bentobox.Engine.Atomicity

/-!
# Values that name what they store

A well-formed value is a primitive of a type of the engine whose `data_type` names the
case that is stored. `setValue` accepts well-formed values only and the operations
return only such values, so whatever is evaluated from well-formed constants is well
formed again, and the checks of `setValue` do not reject it.
-/
namespace Bentobox

open AttributeStore SimulationStore

/-- The value is a primitive and its data type names the case stored. -/
def Value.WellFormed (v : Value) : Prop :=
  ∃ t ∈ anyTypes, ∃ p : Primitive, v = ⟨some (.primitive t), .primitive p⟩ ∧ p.caseType = some t

/-- These are the values that `setVal` makes. -/
theorem Value.wellFormed_iff {v : Value} : v.WellFormed ↔ ∃ s, v = setVal s := by
  constructor
  · rintro ⟨t, ht, p, rfl, hp⟩
    have hs : ∃ s : Scalar, p = s.toPrimitive := by
      cases p with
      | notSet => cases hp
      | int8 v => cases hp; simp [anyTypes, numericTypes] at ht
      | int32 v => exact ⟨.number (.int32 v), rfl⟩
      | int64 v => exact ⟨.number (.int64 v), rfl⟩
      | float32 v => exact ⟨.number (.float32 v), rfl⟩
      | float64 v => exact ⟨.number (.float64 v), rfl⟩
      | strVal s => exact ⟨.str s, rfl⟩
      | boolean b => exact ⟨.bool b, rfl⟩
    obtain ⟨s, rfl⟩ := hs
    rw [caseType_toPrimitive] at hp
    cases hp
    exact ⟨s, rfl⟩
  · rintro ⟨s, rfl⟩
    exact ⟨s.type, s.type_mem_anyTypes, s.toPrimitive, rfl, caseType_toPrimitive s⟩

/-- The constants of a node are well formed. -/
def Node.WellFormed : Node → Prop
  | notSet | retrieve _ => True
  | const v => v.WellFormed
  | mutate _ n => n.WellFormed
  | switch c t f => c.WellFormed ∧ t.WellFormed ∧ f.WellFormed
  | unary _ x => x.WellFormed
  | binary _ x y => x.WellFormed ∧ y.WellFormed
  | random l h => l.WellFormed ∧ h.WellFormed

variable (F : FloatOps)

/-- A stored value is well formed. -/
theorem UserComponent.wellFormed_of_storedValue {cd : ComponentDef} {a : String} {v w : Value}
    (h : storedValue F cd a v = .ok w) : w.WellFormed := by
  rw [Value.wellFormed_iff]
  obtain ⟨t, hc, hs⟩ := Fallible.result_bind_eq_ok_iff.mp h
  obtain ⟨-, x, rfl⟩ := checkValue_eq_ok_iff.mp hc
  rw [valueToSet] at hs
  split_ifs at hs
  · cases hs; exact ⟨x, rfl⟩
  · obtain ⟨y, -, rfl⟩ := Fallible.map_eq_ok_iff.mp hs
    exact ⟨y, rfl⟩
  · cases hs; exact ⟨x, rfl⟩

theorem wellFormed_of_randomOp {v w u : Value} {gen : ℕ} (h : (randomOp F v w gen).1 = .ok u) :
    u.WellFormed := by
  rw [Value.wellFormed_iff]
  rw [randomOp] at h
  split at h
  · cases h; exact ⟨_, rfl⟩
  · cases h

namespace AttributeMap

/-- Every value of the map is well formed. -/
def WellFormed (m : AttributeMap) : Prop := ∀ ref w, m.value ref = some w → w.WellFormed

theorem WellFormed.get {m : AttributeMap} (hm : m.WellFormed) {ref : AttributeRef} {w : Value}
    (h : m.get ref = .ok w) : w.WellFormed := by
  obtain ⟨cd, -, hv⟩ := Fallible.result_bind_eq_ok_iff.mp h
  cases hr : m.value ref with
  | none => rw [hr] at hv; cases hv
  | some w' => rw [hr] at hv; cases hv; exact hm ref w hr

/-- Only well-formed values are stored, whatever is written. -/
theorem wellFormed_refines : StoreRefines WellFormed (id : AttributeMap → AttributeMap) := by
  refine ⟨fun ref m hm => ⟨rfl, rfl, hm⟩, fun F ref v m hm => ⟨rfl, rfl, ?_⟩⟩
  change (put F ref v m).2.WellFormed
  rw [put]
  cases hw : m.converted F ref v with
  | error e => exact hm
  | ok w =>
    obtain ⟨cd, -, hst⟩ := Fallible.result_bind_eq_ok_iff.mp hw
    intro r u hu
    by_cases hr : r = ref
    · subst hr
      rw [value_set_self] at hu
      cases hu
      exact UserComponent.wellFormed_of_storedValue F hst
    · rw [value_set_ne m hr] at hu
      exact hm r u hu

/-- **Evaluation preserves well-formedness**: one case for every node. -/
theorem WellFormed.evaluateNode {n : Node} (hn : n.WellFormed) {s s' : Env AttributeMap}
    (hs : s.store.WellFormed) {v : Value} (h : evaluateNode F n s = (.ok v, s')) :
    v.WellFormed := by
  have hkeep : ∀ (x : Node) (t t' : Env AttributeMap) (u : Value),
      t.store.WellFormed → Bentobox.evaluateNode F x t = (.ok u, t') → t'.store.WellFormed := by
    intro x t t' u ht hx
    have hstore := evaluateNode_store F x t
    rw [hx] at hstore
    rwa [hstore]
  induction n generalizing s s' v with
  | notSet => cases h
  | const u => cases h; exact hn
  | retrieve r => exact hs.get (Prod.ext_iff.mp h).1
  | mutate r n _ => cases h
  | switch c t f _ ht hf =>
    obtain ⟨u, s₁, hu, h⟩ := Fallible.bind_eq_ok_iff.mp h
    have hs₁ := hkeep c s s₁ u hs hu
    change choose u (Bentobox.evaluateNode F t) (Bentobox.evaluateNode F f) s₁ = _ at h
    rcases hb : u.getVal? Scalar.bool? with _ | _ | _
    · simp only [choose, hb] at h; cases h
    · simp only [choose, hb] at h; exact hf hn.2.2 hs₁ h
    · simp only [choose, hb] at h; exact ht hn.2.1 hs₁ h
  | unary op x _ =>
    obtain ⟨u, s₁, -, h⟩ := Fallible.bind_eq_ok_iff.mp h
    exact Value.wellFormed_iff.mpr (unaryOp_eq_setVal F (Prod.ext_iff.mp h).1)
  | binary op x y _ _ =>
    obtain ⟨u, s₁, -, h⟩ := Fallible.bind_eq_ok_iff.mp h
    obtain ⟨w, s₂, -, h⟩ := Fallible.bind_eq_ok_iff.mp h
    exact Value.wellFormed_iff.mpr (binaryOp_eq_setVal F (Prod.ext_iff.mp h).1)
  | random l u _ _ =>
    obtain ⟨u, s₁, -, h⟩ := Fallible.bind_eq_ok_iff.mp h
    obtain ⟨w, s₂, -, h⟩ := Fallible.bind_eq_ok_iff.mp h
    exact wellFormed_of_randomOp F (Prod.ext_iff.mp h).1

end AttributeMap

/-- A simulation starts without values and stores only well-formed ones. -/
theorem wellFormed_refines_simulation :
    SimulationRefines AttributeMap.WellFormed (id : AttributeMap → AttributeMap) where
  toStoreRefines := AttributeMap.wellFormed_refines
  construct_eq d := by
    cases (construct d : Except Fault (SimulationDef × AttributeMap)) <;> rfl
  constructed d d' m h := by
    obtain ⟨⟨d₁, stores⟩, hc, heq⟩ := Fallible.map_eq_ok_iff.mp h
    obtain ⟨stores', hc', -, hnone, -⟩ := construct_spec d
    rw [hc'] at hc
    cases hc
    cases heq
    intro ref w hw
    rw [hnone ref] at hw
    cases hw

namespace Engine
variable {F}

theorem Reachable.view {e : Engine Stores} (he : e.Reachable F) : e.view.Reachable F := by
  obtain ⟨gen, requests, responses, hr⟩ := he
  refine ⟨gen, requests, responses, ?_⟩
  have hmap := run_map F stores_refine_simulation (All.new gen : (new gen : Engine Stores).All _)
    requests
  rw [hr] at hmap
  exact hmap

/-- **Values stay well formed.** In every reachable state, and after any part of a graph that is
run on it, the attributes hold well-formed values, a node of well-formed constants evaluates to a
well-formed value only, and `setValue` accepts the data type of that value for every attribute. -/
theorem Reachable.wellFormed {e : Engine Stores} (he : e.Reachable F) {name : String}
    {sim : Simulation Stores} (hsim : e.sims.get? name = some sim) (os : List Mutate) (gen : ℕ)
    {r : Except Fault Unit} {s : Env Stores}
    (hrun : Fallible.forEach (mutateOp F) os ⟨sim.store, gen⟩ = (r, s)) :
    (∀ ref w, reading s.store ref = .ok w → w.WellFormed) ∧
      ∀ n : Node, n.WellFormed → ∀ v s', evaluateNode F n s = (.ok v, s') → v.WellFormed ∧
        ∀ (cd : ComponentDef) a t, cd.schema.get? a = some t →
          UserComponent.checkValue cd a v = .ok t := by
  have hwf := he.wf name sim hsim
  have hm : (Simulation.map Stores.view sim).store.WellFormed :=
    he.view.all F wellFormed_refines_simulation name _ (by rw [Engine.view, get?_map, hsim]; rfl)
  -- the stores stay consistent and the map well formed while the outputs run
  have hstores := Fallible.Refines.forEach (mutateOp_refines F Stores.stores_refine_map) os
  have hmaps := Fallible.Refines.forEach (mutateOp_refines F AttributeMap.wellFormed_refines) os
  have hswf : s.store.Wf := hstores.keeps.run hwf hrun
  have hsm : s.store.view.WellFormed := by
    have hk := hmaps.keeps ⟨sim.store.view, gen⟩ hm
    have heq := hstores.eq (s := ⟨sim.store, gen⟩) hwf
    rw [hrun] at heq
    change (Fallible.forEach (mutateOp F) os
      (Env.map Stores.view ⟨sim.store, gen⟩)).2.store.WellFormed at hk
    rw [heq] at hk
    exact hk
  refine ⟨fun ref w hw => hsm.get ((reading_eq_get hswf ref).symm.trans hw),
    fun n hn v s' hv => ?_⟩
  have heq := (evaluateNode_refines F Stores.stores_refine_map n).eq (s := s) hswf
  rw [hv] at heq
  have hvwf : v.WellFormed := AttributeMap.WellFormed.evaluateNode F hn hsm heq
  exact ⟨hvwf, fun cd a t ht =>
    UserComponent.checkValue_eq_ok_iff.mpr ⟨ht, Value.wellFormed_iff.mp hvwf⟩⟩

/-- The product of an attribute and a number of another type, after the attribute was stored. -/
theorem Reachable.wellFormed_twoCells : ∃ sim v s',
    (afterApply (twoCells false)).sims.get? "s" = some sim ∧
    evaluateNode default
      (.binary .mul (.retrieve ⟨1, "C", "a"⟩) (.const (setVal (.number (.int64 5)))))
      (Fallible.forEach (mutateOp default) [⟨⟨1, "C", "a"⟩, .const (setVal (.number (.int32 2)))⟩]
        ⟨sim.store, 0⟩).2 = (.ok v, s') ∧ v = setVal (.number (.int64 10)) ∧ v.WellFormed := by
  have hreach : (afterApply (twoCells false)).Reachable default :=
    ⟨0, [.applySimulation (twoCells false)], _, rfl⟩
  have hsim : (afterApply (twoCells false)).sims.get? "s" =
      some ⟨twoCells false, _, false⟩ := rfl
  refine ⟨_, setVal (.number (.int64 10)), _, hsim, rfl, rfl, ?_⟩
  have hnode : (Node.binary .mul (.retrieve ⟨1, "C", "a"⟩)
      (.const (setVal (.number (.int64 5))))).WellFormed :=
    ⟨trivial, Value.wellFormed_iff.mpr ⟨_, rfl⟩⟩
  exact ((hreach.wellFormed hsim
    [⟨⟨1, "C", "a"⟩, .const (setVal (.number (.int32 2)))⟩] 0 rfl).2 _ hnode _ _ rfl).1

end Engine
end Bentobox
