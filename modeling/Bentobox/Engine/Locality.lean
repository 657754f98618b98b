import Bentobox.Engine.Denotation
import Bentobox.Engine.Refinement

/-!
# Evaluation is local and read-only

Reading an attribute inserts a blank value in its component, which no reading can
tell from no value. So evaluation leaves every reading as it was, on any stores and
whether it succeeds or not, and the value of a node without random operations
depends on the attributes it retrieves. Neither result needs consistent indexes.
-/
namespace Bentobox

open AttributeStore

/-! ## Stores that reading does not change -/

section
variable {S : Type} [AttributeStore S] {F : FloatOps} {α β : Type}

/-- Reading one attribute changes no reading. -/
def ReadsOnly (S : Type) [AttributeStore S] : Prop :=
  ∀ (r : AttributeRef) (s : S) (ref : AttributeRef), reading (retrieve r s).2 ref = reading s ref

/-- The readings of a store are those of `σ`. -/
def ReadsAs (σ : AttributeRef → Except Fault Value) (s : Env S) : Prop :=
  ∀ ref, reading s.store ref = σ ref

/-- Evaluation keeps all readings. -/
theorem evaluateNode_keeps_reading (h : ReadsOnly S) (σ : AttributeRef → Except Fault Value)
    (n : Node) : Fallible.Keeps (ReadsAs σ) (evaluateNode F n : Eval S Value) := by
  refine evaluateNode_keeps_of F (fun r s hs ref => ?_) fun _ _ _ _ hs => hs
  exact (h r s.store ref).trans (hs ref)

/-- **Evaluation computes the value** that the readings decide. -/
theorem evaluateNode_eq_denote (h : ReadsOnly S) {n : Node} (hn : n.randomFree)
    {σ : AttributeRef → Except Fault Value} {s : Env S} (hs : ReadsAs σ s) :
    (evaluateNode F n s).1.toOption = denote F (fun ref => (σ ref).toOption) n := by
  exact evaluateNode_denote_of F (fun n => evaluateNode_keeps_reading h σ n)
    (fun ref s hs => congrArg Except.toOption (hs ref)) hn hs

end

/-! ## The stores of the engine -/

/-- Replacing the component in one slot shows under every identifier of the slot. -/
theorem CompVec.find_set_slot {C : Type} [Component C] {v : CompVec C} {id index : ℕ} {c c' : C}
    (h : v.find id = .ok (index, c)) (hc' : Component.isActive c' = true) (i : ℕ) :
    ({ v with vec := v.vec.set index c' } : CompVec C).find i =
      (fun p => if p.1 = index then (index, c') else p) <$> v.find i := by
  obtain ⟨-, hvec, hact⟩ := find_eq_ok_iff.mp h
  have hlt : index < v.vec.length := (List.getElem?_eq_some_iff.mp hvec).1
  unfold find
  cases hi : v.idToIndex.get? i with
  | none => rfl
  | some k =>
    by_cases hk : k = index
    · subst hk
      simp only [List.getElem?_set_self hlt, hvec, hact, hc', if_true, Fallible.map_ok]
    · simp only [List.getElem?_set_ne (Ne.symm hk)]
      cases v.vec[k]? with
      | none => rfl
      | some d => by_cases hd : Component.isActive d = true <;> simp [hd, hk]

namespace Stores

/-- A reading is the value kept in the component that is found. -/
theorem reading_eq (s : Stores) (ref : AttributeRef) :
    reading s ref = s.component ref.component ref.entityId >>= fun c =>
      orNotSet (UserComponent.read c.values ref.attributeName) := by
  refine (getComponent_fst s _ _ _).trans (congrArg _ (funext fun c => ?_))
  obtain ⟨vs, h, -⟩ := UserComponent.getMutableValue_spec ref.attributeName c
  rw [h]

/-- Reading never runs into undefined behaviour. -/
theorem reading_ne_undefined (s : Stores) (ref : AttributeRef) :
    reading s ref ≠ .error .undefined := by
  rw [reading_eq]
  cases hc : s.component ref.component ref.entityId with
  | error x =>
    rw [Fallible.error_bind]
    intro h
    refine component_ne_undefined s ref.component ref.entityId ?_
    rw [hc, Except.error.inj h]
  | ok c =>
    rw [Fallible.ok_bind]
    cases UserComponent.read c.values ref.attributeName <;>
      simp [orNotSet, notSetFault, Fault.runtimeError]

/-- The components that are found read alike. -/
def ReadAlike (c c' : UserComponent) : Prop :=
  ∀ a, UserComponent.read c'.values a = UserComponent.read c.values a

/-- Working on a component without changing its readings changes no reading. -/
theorem reading_getComponent {α : Type} {s : Stores} {n : String} {e : EntityId}
    {m : Fallible UserComponent Fault α}
    (hm : ∀ c, (m c).2.isActive = c.isActive ∧ ReadAlike c (m c).2) (ref : AttributeRef) :
    reading (getComponent n e m s).2 ref = reading s ref := by
  rw [reading_eq, reading_eq]
  rw [getComponent]
  cases hf : s.findComponent n e with
  | error x => rfl
  | ok gid =>
    obtain ⟨g, id⟩ := gid
    cases hg : s.compStore.get? g with
    | none => simp only [hg]
    | some v =>
      simp only [hg, CompVec.at]
      cases hv : v.find id with
      | error x =>
        simp only [OrderedDict.insert_eq_self hg]
      | ok ic =>
        obtain ⟨index, c⟩ := ic
        have hact : Component.isActive (m c).2 = true :=
          (hm c).1.trans (CompVec.find_eq_ok_iff.mp hv).2.2
        let v' : CompVec UserComponent := { v with vec := v.vec.set index (m c).2 }
        have hsize : v'.size = v.size := rfl
        change (component _ _ { s with compStore := s.compStore.insert g v' } >>= _) = _
        rw [component_insert hg hsize, component]
        cases s.findComponent ref.component ref.entityId with
        | error x => rfl
        | ok id' =>
          simp only [Fallible.ok_bind]
          by_cases hgid : id'.1 = g
          · -- the same group: the slot that was worked on, or another one
            simp only [hgid, hg, v', CompVec.find_set_slot hv hact]
            cases hv' : v.find id'.2 with
            | error x => rfl
            | ok p =>
              obtain ⟨k, d⟩ := p
              by_cases hk : k = index
              · have hd : d = c := by
                  have hc := (CompVec.find_eq_ok_iff.mp hv).2.1
                  rw [← hk, (CompVec.find_eq_ok_iff.mp hv').2.1] at hc
                  exact Option.some.inj hc
                simp only [hk, hd, if_true, Fallible.map_ok, Fallible.ok_bind]
                exact congrArg orNotSet ((hm c).2 ref.attributeName)
              · simp only [hk, if_true, if_false, Fallible.map_ok]
          · simp only [if_neg hgid]

theorem readsOnly : ReadsOnly Stores := by
  refine fun r s ref => reading_getComponent (fun c => ?_) ref
  obtain ⟨vs, h, hread⟩ := UserComponent.getMutableValue_spec r.attributeName c
  rw [h]
  exact ⟨rfl, hread⟩

/-- **Evaluation is local and read-only**, on any stores. Two stores that agree on the
attributes a node retrieves give it the same value or both none, and evaluating a node, whether it
succeeds or not, changes no reading. -/
theorem evaluateNode_local_and_readOnly (F : FloatOps) (n : Node) (s s' : Env Stores) :
    (n.randomFree → (∀ ref ∈ n.retrieves,
        (reading s.store ref).toOption = (reading s'.store ref).toOption) →
      (evaluateNode F n s).1.toOption = (evaluateNode F n s').1.toOption) ∧
    ∀ ref, reading (evaluateNode F n s).2.store ref = reading s.store ref := by
  constructor
  · intro hn hagree
    rw [evaluateNode_eq_denote readsOnly hn (σ := reading s.store) fun _ => rfl,
      evaluateNode_eq_denote readsOnly hn (σ := reading s'.store) fun _ => rfl]
    exact denote_congr F hagree
  · exact evaluateNode_keeps_reading readsOnly (reading s.store) n s fun _ => rfl

/-- A component with two integers. -/
def integers : ComponentDef :=
  ⟨"C", ((∅ : OrderedDict String DataType).insert "a" (.primitive .int32)).insert "b"
    (.primitive .int32)⟩

/-- The stores of one entity whose integers have been assigned. -/
def integersWith (a b : BitVec 32) : Stores :=
  ((do
    let _ ← createComponent (compDefMap [integers]) 1 "C"
    assign default ⟨1, "C", "a"⟩ (setVal (.number (.int32 a)))
    assign default ⟨1, "C", "b"⟩ (setVal (.number (.int32 b))) : Fallible Stores Fault Unit)
      (initialStores [⟨1, ["C"]⟩])).2

/-- The stores differ in the attribute that is not retrieved. -/
theorem evaluateNode_local_and_readOnly_integers :
    (evaluateNode default (.binary .add (.retrieve ⟨1, "C", "a"⟩) (.retrieve ⟨1, "C", "a"⟩))
      ⟨integersWith 4 1, 0⟩).1.toOption =
    (evaluateNode default (.binary .add (.retrieve ⟨1, "C", "a"⟩) (.retrieve ⟨1, "C", "a"⟩))
      ⟨integersWith 4 2, 5⟩).1.toOption := by
  refine (evaluateNode_local_and_readOnly default _ _ _).1 rfl fun ref href => ?_
  simp only [Node.retrieves, List.mem_append, List.mem_singleton, or_self] at href
  subst href
  rfl

-- what both give
example : (evaluateNode default (.binary .add (.retrieve ⟨1, "C", "a"⟩) (.retrieve ⟨1, "C", "a"⟩))
      ⟨integersWith 4 1, 0⟩).1 = .ok (setVal (.number (.int32 8))) ∧
    reading (integersWith 4 1) ⟨1, "C", "b"⟩ ≠ reading (integersWith 4 2) ⟨1, "C", "b"⟩ := by
  decide

end Stores
end Bentobox
