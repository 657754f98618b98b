import Bentobox.Engine.Locality

/-!
# Where references resolve

`Stores.location` is the object that `getComponent` returns: a vector and a slot in
it. No evaluation, mutation or failure moves a component, so references resolve to
the same objects, with the same definitions, in every state of a simulation.
-/
namespace Bentobox

open AttributeStore

namespace Stores
variable {α : Type}

/-- The vector and the slot in it that an identifier leads to. -/
def slot (id : CompStoreId) (s : Stores) : Except Fault (ℕ × ℕ) :=
  match s.compStore.get? id.1 with
  | none => .error atFault
  | some vec => (fun p => (id.1, p.1)) <$> vec.find id.2

/-- The object that `getComponent` returns a reference to. -/
def location (typeName : String) (entityId : EntityId) (s : Stores) : Except Fault (ℕ × ℕ) :=
  s.findComponent typeName entityId >>= fun id => s.slot id

/-- Working on the component of a pair is working on the component in a slot, and what becomes of it
is put back there. -/
def WorksAt (typeName : String) (entityId : EntityId) (l : ℕ × ℕ) (s : Stores) : Prop :=
  ∃ vec comp, s.compStore.get? l.1 = some vec ∧ vec.vec[l.2]? = some comp ∧
    ∀ (α : Type) (m : Fallible UserComponent Fault α), getComponent typeName entityId m s =
      ((m comp).1, { s with
        compStore := s.compStore.insert l.1 { vec with vec := vec.vec.set l.2 (m comp).2 } })

/-- `s` finds the components of `s₀`, each where it was and with the definition it had. -/
structure Resolves (s₀ s : Stores) : Prop where
  wf : s.Wf
  layout : s.view.layout = s₀.view.layout
  find : ∀ n e, s.findComponent n e = s₀.findComponent n e
  slot : ∀ id, s.slot id = s₀.slot id

theorem Resolves.refl {s : Stores} (hs : s.Wf) : Resolves s s :=
  ⟨hs, rfl, fun _ _ => rfl, fun _ => rfl⟩

theorem Resolves.location {s₀ s : Stores} (h : Resolves s₀ s) (n : String) (e : EntityId) :
    s.location n e = s₀.location n e := by
  simp only [Stores.location, h.find, h.slot]

/-- Working on a component moves none. -/
theorem slot_getComponent {s : Stores} (n : String) (e : EntityId)
    {m : Fallible UserComponent Fault α} (hm : ∀ c, (m c).2.isActive = c.isActive) :
    (∀ n' e', (getComponent n e m s).2.findComponent n' e' = s.findComponent n' e') ∧
      ∀ id, (getComponent n e m s).2.slot id = s.slot id := by
  rw [getComponent]
  cases hf : s.findComponent n e with
  | error x => exact ⟨fun _ _ => rfl, fun _ => rfl⟩
  | ok gid =>
    obtain ⟨g, id⟩ := gid
    cases hg : s.compStore.get? g with
    | none => simp only [hg, implies_true, and_self]
    | some v =>
      simp only [hg, CompVec.at]
      cases hv : v.find id with
      | error x => simp only [OrderedDict.insert_eq_self hg, implies_true, and_self]
      | ok p =>
        obtain ⟨index, c⟩ := p
        have hact : Component.isActive (m c).2 = true :=
          (hm c).trans (CompVec.find_eq_ok_iff.mp hv).2.2
        let v' : CompVec UserComponent := { v with vec := v.vec.set index (m c).2 }
        have hsize : v'.size = v.size := rfl
        refine ⟨findComponent_insert hg hsize, fun id' => ?_⟩
        simp only [Stores.slot, OrderedDict.get?_insert]
        by_cases hid : id'.1 = g
        · simp only [hid, if_true, hg, CompVec.find_set_slot hv hact]
          cases v.find id'.2 with
          | error x => rfl
          | ok q => by_cases hq : q.1 = index <;> simp [hq]
        · simp only [if_neg hid]

/-- Nothing that a graph or a request does to the attributes moves a component. -/
theorem resolves_refines (s₀ : Stores) : StoreRefines (Resolves s₀) (id : Stores → Stores) := by
  refine ⟨fun ref s hs => ⟨rfl, rfl, ?_⟩, fun F ref v s hs => ⟨rfl, rfl, ?_⟩⟩
  · obtain ⟨-, hview, hwf⟩ := stores_refine_map.retrieve ref s hs.wf
    obtain ⟨hfind, hslot⟩ := slot_getComponent (s := s) ref.component ref.entityId
      (m := UserComponent.getMutableValue ref.attributeName) fun c => by
        obtain ⟨vs, h, -⟩ := UserComponent.getMutableValue_spec ref.attributeName c
        rw [h]
    refine ⟨hwf, ?_, fun n e => (hfind n e).trans (hs.find n e),
      fun id => (hslot id).trans (hs.slot id)⟩
    exact (congrArg AttributeMap.layout hview).trans hs.layout
  · obtain ⟨-, hview, hwf⟩ := stores_refine_map.assign F ref v s hs.wf
    obtain ⟨hfind, hslot⟩ := slot_getComponent (s := s) ref.component ref.entityId
      (m := UserComponent.setValue F ref.attributeName v) fun c => by
        obtain ⟨vs, h, -⟩ := UserComponent.setValue_spec F ref.attributeName v c
        rw [h]
    refine ⟨hwf, ?_, fun n e => (hfind n e).trans (hs.find n e),
      fun id => (hslot id).trans (hs.slot id)⟩
    refine ((congrArg AttributeMap.layout hview).trans ?_).trans hs.layout
    change (AttributeMap.put F ref v s.view).2.layout = _
    rw [AttributeMap.put]
    split <;> rfl

end Stores
end Bentobox
