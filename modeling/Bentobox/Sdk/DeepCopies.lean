import Bentobox.Sdk.Objects

/-!
# Deep copies of entities record on their own

What is written through a copy of an entity is seen through that copy only, at all of its
components. The entity itself records as if there were no copy, and both note the attributes
that they retrieve in the same dictionary of inputs.
-/
namespace Bentobox.Sdk.Plot

/-- The two objects after an entity was copied. -/
inductive Side
  | original
  | copy
  deriving DecidableEq

/-- The entity and its copy. -/
def sides (e copied : GraphEntity) : Side → Option Referent
  | .original => some (.entity e)
  | .copy => some (.entity copied)

/-- Where a side has the outputs that the entity has in a cell. -/
def Side.outputs (σ : ℕ → ℕ) : Side → ℕ → ℕ
  | original => id
  | copy => σ

theorem GraphEntity.name_of_get? {e : GraphEntity} {name : String} {c : GraphComponent}
    (h : e.componentMap.get? name = some c) : c.name = name :=
  e.named (name, c) (OrderedDict.get?_eq_some_iff.mp h)

section
variable {e copied : GraphEntity} {d₀ d d' : Dictionaries} {σ : ℕ → ℕ} {a : Access Side}
  {ans : Option Node}

/-- The object of a side is the component of the entity, with the outputs of the side. -/
theorem object_sides (h : Copied (.entity e) d₀ σ (.entity copied) d) {c : GraphComponent}
    (hc : a.object (sides e copied) = some c) :
    ∃ name c₀, a.component = some name ∧ e.componentMap.get? name = some c₀ ∧
      c = { c₀ with outputs := a.handle.outputs σ c₀.outputs } := by
  obtain ⟨handle, path, attributeName, value⟩ := a
  cases path with
  | none => cases handle <;> cases hc
  | some name =>
    cases handle with
    | original => exact ⟨name, c, rfl, hc, rfl⟩
    | copy =>
      have hcomp : (Referent.entity copied).component? (some name) = some c := hc
      rw [h.component] at hcomp
      obtain ⟨c₀, hc₀, rfl⟩ := Option.map_eq_some_iff.mp hcomp
      exact ⟨name, c₀, rfl, hc₀, rfl⟩

/-- A write to an attribute of the entity is recorded for the copy exactly if it goes through the
copy: the name of a component belongs to one component. -/
theorem assignedIn_copy (h : Copied (.entity e) d₀ σ (.entity copied) d)
    (he : (Referent.entity e).Allocated d₀) {name : String} {c : GraphComponent}
    (hc : e.componentMap.get? name = some c) (attributeName : String) :
    a.assignedIn (sides e copied) (σ c.outputs) (c.attrRef attributeName) =
      if a.handle = .copy then a.assigned (sides e copied) (c.attrRef attributeName) else none := by
  by_cases href : a.attrRef (sides e copied) = some (c.attrRef attributeName)
  · rw [Access.attrRef] at href
    obtain ⟨c', hc', heq⟩ := Option.map_eq_some_iff.mp href
    obtain ⟨name', c₀, -, hc₀, rfl⟩ := object_sides h hc'
    have hname : c₀.name = c.name := congrArg AttributeRef.component heq
    rw [GraphEntity.name_of_get? hc₀, GraphEntity.name_of_get? hc] at hname
    subst hname
    obtain rfl : c₀ = c := Option.some.inj (hc₀.symm.trans hc)
    have hcell : (a.object (sides e copied)).map GraphComponent.outputs = some (σ c₀.outputs) ↔
        a.handle = .copy := by
      rw [hc']
      have hlt := he (some name') c₀ hc
      have hle := (h.copies (some name') c₀ hc).1
      cases a.handle with
      | copy => simp [Side.outputs]
      | original =>
        have hne : c₀.outputs ≠ σ c₀.outputs := by omega
        simp [Side.outputs, hne]
    simp only [Access.assignedIn, hcell]
  · have hnone : a.assigned (sides e copied) (c.attrRef attributeName) = none := by
      rw [Access.assigned, if_neg href]
    rw [Access.assignedIn, hnone]
    split_ifs <;> rfl

/-- Outputs that the entity and its copy record in, with the same contents in both. -/
def Agree (e : GraphEntity) (d t : Dictionaries) : Prop :=
  ∀ name c, e.componentMap.get? name = some c → d.outputs.cell c.outputs = t.outputs.cell c.outputs

/-- An access to the copy leaves the outputs of the entity. -/
theorem agree_step_copy (h : Copied (.entity e) d₀ σ (.entity copied) d)
    (he : (Referent.entity e).Allocated d₀) {s s' t : Dictionaries} (hst : Agree e s t)
    (ha : a.handle = .copy) (hstep : step (sides e copied) s a = some (ans, s')) :
    Agree e s' t := by
  intro name c hc
  rw [← hst name c hc]
  obtain ⟨c', hc', ⟨-, -, rfl⟩ | ⟨n, -, -, rfl⟩⟩ := step_eq_some_iff.mp hstep
  · rw [GraphComponent.outputs_getAttr]
  · obtain ⟨name', c₀, -, hc₀, rfl⟩ := object_sides h hc'
    apply GraphComponent.cell_setAttr_ne
    have hlt := he (some name) c hc
    have hle := (h.copies (some name') c₀ hc₀).1
    simp only [ha, Side.outputs]
    omega

/-- On outputs with the same contents, an access to the entity does the same. -/
theorem agree_step_original {s t : Dictionaries} (hst : Agree e s t) (ha : a.handle = .original) :
    Option.Rel (fun x y => x.1 = y.1 ∧ Agree e x.2 y.2)
      (step (sides e copied) s a) (step (sides e copied) t a) := by
  cases hc : a.object (sides e copied) with
  | none =>
    simp only [step, hc]
    exact .none
  | some c =>
    have hcells : s.outputs.cell c.outputs = t.outputs.cell c.outputs := by
      obtain ⟨handle, path, attributeName, value⟩ := a
      cases ha
      cases path with
      | none => cases hc
      | some name => exact hst name c hc
    cases hv : a.value with
    | none =>
      simp only [step, hc, hv]
      refine .some ⟨?_, fun name c' hc' => ?_⟩
      · rw [GraphComponent.getAttr_fst, GraphComponent.getAttr_fst, hcells]
      · rw [GraphComponent.outputs_getAttr, GraphComponent.outputs_getAttr]
        exact hst name c' hc'
    | some n =>
      simp only [step, hc, hv]
      refine .some ⟨rfl, fun name c' hc' => ?_⟩
      by_cases hcell : c'.outputs = c.outputs
      · rw [hcell, GraphComponent.cell_setAttr_self, GraphComponent.cell_setAttr_self]
        exact Recorder.outputs_setAttr_congr hcells _ _
      · rw [GraphComponent.cell_setAttr_ne _ _ _ _ hcell,
          GraphComponent.cell_setAttr_ne _ _ _ _ hcell]
        exact hst name c' hc'

/-- What the entity and its copy have recorded is what `set_attr` can have recorded. -/
theorem recorded_copied (h : Copied (.entity e) d₀ σ (.entity copied) d)
    (he : (Referent.entity e).Allocated d₀)
    (hd : ∀ name c, e.componentMap.get? name = some c →
      Recorder.Recorded (d₀.outputs.cell c.outputs)) : Recorded (sides e copied) d := by
  intro side r path c hr hc
  have hobj : Access.object (sides e copied) ⟨side, path, "", none⟩ = some c := by
    rw [Access.object, hr, Option.bind_some, hc]
  obtain ⟨name, c₀, -, hc₀, rfl⟩ := object_sides h hobj
  cases side with
  | original =>
    simp only [Side.outputs, id_eq]
    rw [h.extends_.cell _ (he (some name) c₀ hc₀)]
    exact hd name c₀ hc₀
  | copy =>
    simp only [Side.outputs]
    rw [(h.copies (some name) c₀ hc₀).2.2]
    exact hd name c₀ hc₀

end

/-- **A deep copy of an entity records on its own.** In any run of accesses to an entity and to
its copy, an attribute read through the copy is the expression that was assigned to it last
through the copy, else what the entity had for it when the copy was made; the entity answers and
records what it does when the copy is left alone; and the inputs, which they share, gain a key
exactly when an access on either side produces a retrieve node. -/
theorem deepcopy_isolated {e copied : GraphEntity} {d d₀ d₁ : Dictionaries}
    (he : (Referent.entity e).Allocated d)
    (hd : ∀ name c, e.componentMap.get? name = some c →
      Recorder.Recorded (d.outputs.cell c.outputs))
    (hcopy : e.deepcopy d = (copied, d₀)) {as : List (Access Side)} {os : List (Option Node)}
    (has : ∀ a ∈ as, a.Named) (hrun : Machine.run (step (sides e copied)) d₀ as = some (os, d₁)) :
    (∀ name c attributeName, e.componentMap.get? name = some c → '/' ∉ attributeName.toList →
      (step (sides e copied) d₁ ⟨.copy, some name, attributeName, none⟩).map Prod.fst =
        some (some (History.latest
          (fun a => if a.handle = .copy then a.assigned (sides e copied) (c.attrRef attributeName)
            else none)
          (Recorder.definition (d.outputs.cell c.outputs) (c.attrRef attributeName)) as))) ∧
    (∃ d₂, Machine.run (step (sides e copied)) d (as.filter fun a => a.handle = .original) =
        some (Machine.answersTo (fun a => a.handle = .original) as os, d₂) ∧
      ∀ name c, e.componentMap.get? name = some c →
        d₁.outputs.cell c.outputs = d₂.outputs.cell c.outputs) ∧
    (∀ name, (copied.componentMap.get? name).map GraphComponent.inputs =
      (e.componentMap.get? name).map GraphComponent.inputs) ∧
    ∀ cell key, key ∈ (d₁.inputs.cell cell).keys ↔ key ∈ (d.inputs.cell cell).keys ∨
      ∃ r ∈ as.zip os, r.1.Retrieved (sides e copied) cell key r.2 := by
  obtain ⟨σ, h⟩ := Referent.copied_deepcopy he
  simp only [Referent.deepcopy, hcopy] at h
  have hcomp : ∀ name, copied.componentMap.get? name =
      (e.componentMap.get? name).map fun c => { c with outputs := σ c.outputs } :=
    fun name => h.component (some name)
  refine ⟨fun name c attributeName hc hattr => ?_, ?_, fun name => ?_, fun cell key => ?_⟩
  · have hobj : Access.object (sides e copied) ⟨.copy, some name, attributeName, none⟩ =
        some { c with outputs := σ c.outputs } := by
      change copied.componentMap.get? name = _
      rw [hcomp, hc, Option.map_some]
    simp only [step, hobj, Option.map_some, GraphComponent.getAttr_fst]
    have hlast := definition_run hrun has
      (show '/' ∉ (c.attrRef attributeName).attributeName.toList from hattr) (σ c.outputs)
    rw [(h.copies (some name) c hc).2.2] at hlast
    refine congrArg (fun n => some (some n)) (hlast.trans ?_)
    exact History.latest_congr fun a _ => assignedIn_copy h he hc attributeName
  · refine Machine.run_filter (R := Agree e) (Q := fun _ => True)
      (fun s t a hst _ ha => ?_) (fun s t a o s' hst _ ha hstep => ?_) ?_ (fun _ _ => trivial) hrun
    · exact agree_step_original hst (of_decide_eq_true ha)
    · refine agree_step_copy h he hst ?_ hstep
      cases hside : a.handle with
      | copy => rfl
      | original => simp [hside] at ha
    · intro name c hc
      exact h.extends_.cell _ (he (some name) c hc)
  · rw [hcomp, Option.map_map]
    rfl
  · rw [mem_inputs_run hrun has (recorded_copied h he hd), h.inputs]

/-- An entity with two components that record in the same dictionaries. -/
def car : GraphEntity where
  entityId := 1
  componentMap := ⟨[("position", ⟨1, "position", 0, 0⟩), ("speed", ⟨1, "speed", 0, 0⟩)], by decide⟩
  named := by decide

theorem allocated_car : (Referent.entity car).Allocated newDictionaries := by
  rintro (_ | name) c hc
  · cases hc
  · have hmem : (name, c) ∈ car.componentMap.entries := OrderedDict.get?_eq_some_iff.mp hc
    simp only [car, List.mem_cons, Prod.mk.injEq, List.not_mem_nil, or_false] at hmem
    obtain ⟨-, rfl⟩ | ⟨-, rfl⟩ := hmem <;> decide

/-- Read the speed of the car, and write it to the position of the copy. -/
def copySpeed : List (Access Side) :=
  [⟨.original, some "speed", "x", none⟩,
    ⟨.copy, some "position", "x", some (.retrieve ⟨1, "speed", "x"⟩)⟩]

theorem deepcopy_isolated_car : ∃ r, Machine.run
      (step (sides car (car.deepcopy newDictionaries).1)) (car.deepcopy newDictionaries).2
      copySpeed = some r ∧
    (step (sides car (car.deepcopy newDictionaries).1) r.2
      ⟨.copy, some "position", "x", none⟩).map Prod.fst =
        some (some (.retrieve ⟨1, "speed", "x"⟩)) := by
  have hnamed : ∀ a ∈ copySpeed, a.Named := by simp [copySpeed, Access.Named]
  refine ⟨_, rfl, ?_⟩
  exact (deepcopy_isolated allocated_car (fun _ _ _ => Recorder.recorded_empty) rfl hnamed rfl).1
    "position" ⟨1, "position", 0, 0⟩ "x" rfl (by decide)

end Bentobox.Sdk.Plot
