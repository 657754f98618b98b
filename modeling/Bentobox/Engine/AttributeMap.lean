import Bentobox.Engine.Interpreter

/-!
# The map of attributes

What the stores of a simulation are for: a partial function from attribute
references to values, with a fixed layout that says which component definition a
reference meets. `Stores.view` reads this map off the stores, and reading and
writing the stores is reading and writing the map (`stores_refine_map`).

On the map, evaluation changes nothing and a successful mutation changes one
attribute; both are true of the stores through the refinement.
-/
namespace Bentobox

open AttributeStore

structure AttributeMap where
  layout : String → EntityId → Except Fault ComponentDef
  value : AttributeRef → Option Value

namespace AttributeMap

/-- Change the value of one attribute. -/
def set (m : AttributeMap) (ref : AttributeRef) (v : Value) : AttributeMap :=
  ⟨m.layout, fun r => if r = ref then some v else m.value r⟩

/-- Read an attribute of an existing component that has a value. -/
def get (m : AttributeMap) (ref : AttributeRef) : Except Fault Value :=
  m.layout ref.component ref.entityId >>= fun _ => orNotSet (m.value ref)

/-- The value that a write to an attribute stores. -/
def converted (F : FloatOps) (m : AttributeMap) (ref : AttributeRef) (v : Value) :
    Except Fault Value :=
  m.layout ref.component ref.entityId >>= fun compDef =>
    UserComponent.storedValue F compDef ref.attributeName v

/-- Write an attribute, unless the write is rejected. -/
def put (F : FloatOps) (ref : AttributeRef) (v : Value) : Fallible AttributeMap Fault Unit :=
  fun m => match m.converted F ref v with
    | .ok w => (.ok (), m.set ref w)
    | .error e => (.error e, m)

instance : AttributeStore AttributeMap where
  retrieve ref := Fallible.reads fun m => m.get ref
  assign := put

@[simp] theorem layout_set (m : AttributeMap) (ref : AttributeRef) (v : Value) :
    (m.set ref v).layout = m.layout := rfl

@[simp] theorem value_set_self (m : AttributeMap) (ref : AttributeRef) (v : Value) :
    (m.set ref v).value ref = some v := by simp [set]

theorem value_set_ne (m : AttributeMap) {ref r : AttributeRef} (h : r ≠ ref) (v : Value) :
    (m.set ref v).value r = m.value r := by simp [set, h]

/-- Reading another attribute is not affected by a write, errors included. -/
theorem get_set_ne (m : AttributeMap) {ref r : AttributeRef} (h : r ≠ ref) (v : Value) :
    (m.set ref v).get r = m.get r := by
  simp only [get, layout_set, value_set_ne m h]

end AttributeMap

/-! ## The stores refine the map -/

namespace Stores

/-- The map that the stores represent. -/
def view (s : Stores) : AttributeMap where
  layout n e := UserComponent.compDef <$> s.component n e
  value ref := match s.component ref.component ref.entityId with
    | .ok c => UserComponent.read c.values ref.attributeName
    | .error _ => none

theorem view_get (s : Stores) (ref : AttributeRef) :
    s.view.get ref = s.component ref.component ref.entityId >>= fun c =>
      orNotSet (UserComponent.read c.values ref.attributeName) := by
  simp only [AttributeMap.get, view]
  cases s.component ref.component ref.entityId with
  | error e => rfl
  | ok c => simp only [Fallible.map_ok, Fallible.ok_bind]

variable {α : Type}

/-- Working on the values of one component changes the map at its attributes only. -/
theorem view_getComponent {s : Stores} (hs : s.Wf) {n : String} {e : EntityId}
    {m : Fallible UserComponent Fault α} (hm : ∀ c, ∃ vs, (m c).2 = { c with values := vs }) :
    (getComponent n e m s).2.view.layout = s.view.layout ∧
      ∀ r, (getComponent n e m s).2.view.value r =
        if r.component = n ∧ r.entityId = e then
          match s.component n e with
          | .ok c => UserComponent.read (m c).2.values r.attributeName
          | .error _ => none
        else s.view.value r := by
  have hact : ∀ c, (m c).2.isActive = c.isActive := fun c => by
    obtain ⟨vs, h⟩ := hm c
    rw [h]
  have hdef : ∀ c, (m c).2.compDef = c.compDef := fun c => by
    obtain ⟨vs, h⟩ := hm c
    rw [h]
  obtain ⟨-, hcomp, -⟩ := getComponent_spec hs n e hact
  constructor
  · funext n' e'
    simp only [view, hcomp]
    split_ifs with hne
    · rw [hne.1, hne.2]
      cases s.component n e with
      | error x => rfl
      | ok c => simp only [Fallible.map_ok, hdef]
    · rfl
  · intro r
    simp only [view, hcomp]
    split_ifs
    · cases s.component n e with
      | error x => rfl
      | ok c => simp only [Fallible.map_ok]
    · rfl

private theorem retrieve_refines (ref : AttributeRef) :
    Fallible.Refines Wf view (retrieve ref) (retrieve ref) := by
  intro s hs
  have hm : ∀ c, ∃ vs, (UserComponent.getMutableValue ref.attributeName c).2 =
      { c with values := vs } := fun c => by
    obtain ⟨vs, h, -⟩ := UserComponent.getMutableValue_spec ref.attributeName c
    exact ⟨vs, congrArg Prod.snd h⟩
  have hact : ∀ c, (UserComponent.getMutableValue ref.attributeName c).2.isActive =
      c.isActive := fun c => by
    obtain ⟨vs, h⟩ := hm c
    rw [h]
  obtain ⟨hres, -, hwf⟩ := getComponent_spec hs ref.component ref.entityId hact
  obtain ⟨hlayout, hvalue⟩ := view_getComponent hs (n := ref.component) (e := ref.entityId) hm
  refine ⟨?_, ?_, hwf⟩
  · refine hres.trans (Eq.trans ?_ (view_get s ref).symm)
    cases s.component ref.component ref.entityId with
    | error x => rfl
    | ok c =>
      obtain ⟨vs, h, -⟩ := UserComponent.getMutableValue_spec ref.attributeName c
      simp only [Fallible.ok_bind, h]
  · have hv : (getComponent ref.component ref.entityId
        (UserComponent.getMutableValue ref.attributeName) s).2.view.value = s.view.value := by
      funext r
      rw [hvalue]
      split_ifs with hr
      · simp only [view, hr]
        cases s.component ref.component ref.entityId with
        | error x => rfl
        | ok c =>
          obtain ⟨vs, h, hread⟩ := UserComponent.getMutableValue_spec ref.attributeName c
          simp only [h, hread]
      · rfl
    exact congrArg₂ AttributeMap.mk hlayout hv

private theorem assign_refines (F : FloatOps) (ref : AttributeRef) (v : Value) :
    Fallible.Refines Wf view (assign F ref v) (assign F ref v) := by
  intro s hs
  obtain ⟨e, n, a⟩ := ref
  have hm : ∀ c, ∃ vs, (UserComponent.setValue F a v c).2 = { c with values := vs } := fun c => by
    obtain ⟨vs, h, -⟩ := UserComponent.setValue_spec F a v c
    exact ⟨vs, congrArg Prod.snd h⟩
  have hact : ∀ c, (UserComponent.setValue F a v c).2.isActive = c.isActive := fun c => by
    obtain ⟨vs, h⟩ := hm c
    rw [h]
  obtain ⟨hres, -, hwf⟩ := getComponent_spec hs n e hact
  obtain ⟨hlayout, hvalue⟩ := view_getComponent hs (n := n) (e := e) hm
  change _ = (AttributeMap.put F ⟨e, n, a⟩ v s.view).1 ∧
    _ = (AttributeMap.put F ⟨e, n, a⟩ v s.view).2 ∧ _
  cases hc : s.component n e with
  | error x =>
    have hconv : s.view.converted F ⟨e, n, a⟩ v = .error x := by
      simp only [AttributeMap.converted, view, hc, Fallible.map_error, Fallible.error_bind]
    simp only [AttributeMap.put, hconv]
    refine ⟨hres.trans (by rw [hc, Fallible.error_bind]), ?_, hwf⟩
    refine congrArg₂ AttributeMap.mk hlayout (funext fun r => (hvalue r).trans ?_)
    split_ifs with hr
    · simp only [hr, hc]
    · rfl
  | ok c =>
    obtain ⟨vs, h, hread⟩ := UserComponent.setValue_spec F a v c
    have hconv : s.view.converted F ⟨e, n, a⟩ v =
        UserComponent.storedValue F c.compDef a v := by
      simp only [AttributeMap.converted, view, hc, Fallible.map_ok, Fallible.ok_bind]
    have hres' := hres.trans (by rw [hc, Fallible.ok_bind, h])
    simp only [AttributeMap.put, hconv]
    cases hst : UserComponent.storedValue F c.compDef a v with
    | error x =>
      rw [hst] at hres' hread
      refine ⟨hres', ?_, hwf⟩
      refine congrArg₂ AttributeMap.mk hlayout (funext fun r => (hvalue r).trans ?_)
      split_ifs with hr
      · simp only [hr, hc, h, hread]
      · rfl
    | ok w =>
      rw [hst] at hres' hread
      refine ⟨hres', ?_, hwf⟩
      refine congrArg₂ AttributeMap.mk hlayout (funext fun r => (hvalue r).trans ?_)
      obtain ⟨e', n', a'⟩ := r
      by_cases hr : n' = n ∧ e' = e
      · obtain ⟨rfl, rfl⟩ := hr
        simp only [hc, h, hread, and_self, if_true, view, AttributeRef.mk.injEq, true_and]
      · have hne : ¬ (e' = e ∧ n' = n ∧ a' = a) := fun hall => hr ⟨hall.2.1, hall.1⟩
        simp only [hr, if_false, AttributeRef.mk.injEq, hne]

/-- **The stores refine the map**: reading and writing an attribute has the result and the
effect it has on the map, and keeps the stores consistent. -/
theorem stores_refine_map : StoreRefines Wf view := ⟨retrieve_refines, assign_refines⟩

end Stores
/-! ## What the interpreter does to a map -/

namespace AttributeMap
variable (F : FloatOps)

/-- Nothing but a mutation changes the map. -/
theorem evaluateNode_keeps (m : AttributeMap) (n : Node) :
    Fallible.Keeps (fun s : Env AttributeMap => s.store = m) (evaluateNode F n) := by
  exact evaluateNode_keeps_of F (fun _ _ h => h) fun _ _ _ _ h => h

/-- **Evaluation is read-only.** -/
theorem evaluateNode_store (n : Node) (s : Env AttributeMap) :
    (evaluateNode F n s).2.store = s.store :=
  evaluateNode_keeps F s.store n s rfl

theorem onStore_assign (ref : AttributeRef) (v : Value) (s : Env AttributeMap) :
    (onStore (assign F ref v) : Eval AttributeMap Unit) s = match s.store.converted F ref v with
      | .ok w => (.ok (), ⟨s.store.set ref w, s.gen⟩)
      | .error e => (.error e, s) := by
  change ((put F ref v s.store).1, Env.mk (put F ref v s.store).2 s.gen) = _
  rw [put]
  cases s.store.converted F ref v <;> rfl

/-- A mutation succeeds when its node has a value that the attribute accepts; it then sets
that attribute. -/
theorem mutateOp_eq_ok_iff {o : Mutate} {s s' : Env AttributeMap} :
    mutateOp F o s = (.ok (), s') ↔ ∃ v w gen, evaluateNode F o.toNode s = (.ok v, ⟨s.store, gen⟩) ∧
      s.store.converted F o.mutateAttr v = .ok w ∧ s' = ⟨s.store.set o.mutateAttr w, gen⟩ := by
  have hstore := evaluateNode_store F o.toNode s
  rw [mutateOp, Fallible.bind_eq_ok_iff]
  constructor
  · rintro ⟨v, ⟨m, gen⟩, hv, hput⟩
    rw [hv] at hstore
    cases hstore
    rw [onStore_assign] at hput
    cases hw : s.store.converted F o.mutateAttr v with
    | error e => rw [hw] at hput; cases hput
    | ok w => rw [hw] at hput; cases hput; exact ⟨v, w, gen, hv, hw, rfl⟩
  · rintro ⟨v, w, gen, hv, hw, rfl⟩
    refine ⟨v, _, hv, ?_⟩
    rw [onStore_assign, hw]

/-- **A mutation that fails** changes no attribute. -/
theorem mutateOp_error_store {o : Mutate} {s s' : Env AttributeMap} {e : Fault}
    (h : mutateOp F o s = (.error e, s')) : s'.store = s.store := by
  have hstore := evaluateNode_store F o.toNode s
  rw [mutateOp, Fallible.bind_eq_error_iff] at h
  rcases h with h | ⟨v, ⟨m, gen⟩, hv, hput⟩
  · rw [h] at hstore; exact hstore
  · rw [hv] at hstore
    cases hstore
    rw [onStore_assign] at hput
    cases hw : s.store.converted F o.mutateAttr v with
    | error e => rw [hw] at hput; cases hput; rfl
    | ok w => rw [hw] at hput; cases hput

/-- An attribute that no output of a list is directed at is not changed by them. -/
theorem forEach_mutateOp_value {os : List Mutate} {ref : AttributeRef}
    (h : ∀ o ∈ os, o.mutateAttr ≠ ref) (m : AttributeMap) :
    Fallible.Keeps (fun s : Env AttributeMap => s.store.layout = m.layout ∧
      s.store.value ref = m.value ref) (Fallible.forEach (mutateOp F) os) := by
  refine Fallible.Keeps.forEach fun o ho s hs => ?_
  rcases hr : mutateOp F o s with ⟨e | ⟨⟩, s'⟩
  · rw [mutateOp_error_store F hr]; exact hs
  · obtain ⟨v, w, gen, -, -, rfl⟩ := (mutateOp_eq_ok_iff F).mp hr
    exact ⟨hs.1, (value_set_ne _ (h o ho).symm w).trans hs.2⟩

end AttributeMap
end Bentobox
