import Bentobox.Lib.Heap
import Bentobox.Lib.History
import Bentobox.Lib.Machine
import Bentobox.Sdk.Recorder

/-!
# Objects of the plotter

Components record into dictionaries that they hold by reference, so the dictionaries are cells
of heaps. All components of a plotter share two of them. `deepcopy` keeps the dictionary of
inputs and copies the dictionary of outputs, and its memo makes one copy for all components
that are copied by the same call.
-/
namespace Bentobox.Sdk.Plot

/-- The dictionaries in use. -/
structure Dictionaries where
  inputs : Heap (OrderedDict String AttributeRef)
  outputs : Heap (OrderedDict String Mutate)

/-- The two dictionaries of a new plotter. -/
def newDictionaries : Dictionaries := ⟨⟨fun _ => ∅, 1⟩, ⟨fun _ => ∅, 1⟩⟩

/-! ## Components and entities -/

/-- A component with the cells that it records in. -/
structure GraphComponent where
  entityId : EntityId
  name : String
  inputs : ℕ
  outputs : ℕ
  deriving DecidableEq

namespace GraphComponent

def useInputOutputs (inputs outputs : ℕ) (c : GraphComponent) : GraphComponent :=
  { c with inputs, outputs }

def attrRef (c : GraphComponent) (name : String) : AttributeRef := ⟨c.entityId, c.name, name⟩

/-- The dictionaries of the component. -/
def recorder (c : GraphComponent) (d : Dictionaries) : Recorder :=
  ⟨d.inputs.cell c.inputs, d.outputs.cell c.outputs⟩

/-- Leave these contents in the dictionaries of the component. -/
def record (c : GraphComponent) (r : Recorder) (d : Dictionaries) : Dictionaries :=
  ⟨d.inputs.set c.inputs r.inputs, d.outputs.set c.outputs r.outputs⟩

def getAttr (c : GraphComponent) (name : String) (d : Dictionaries) : Node × Dictionaries :=
  (((c.recorder d).getAttr (c.attrRef name)).1,
    c.record ((c.recorder d).getAttr (c.attrRef name)).2 d)

def setAttr (c : GraphComponent) (name : String) (value : Node) (d : Dictionaries) :
    Dictionaries :=
  c.record ((c.recorder d).setAttr (c.attrRef name) value) d

end GraphComponent

/-- The components of an entity are kept under their names. -/
structure GraphEntity where
  entityId : EntityId
  componentMap : OrderedDict String GraphComponent
  named : ∀ p ∈ componentMap.entries, p.2.name = p.1
  deriving DecidableEq

def GraphEntity.useInputOutputs (inputs outputs : ℕ) (e : GraphEntity) : GraphEntity where
  entityId := e.entityId
  componentMap := e.componentMap.map (GraphComponent.useInputOutputs inputs outputs)
  named := by
    intro p hp
    obtain ⟨q, hq, rfl⟩ := List.mem_map.mp hp
    exact e.named q hq

/-! ## Deep copies -/

/-- The dictionaries of outputs that a call of `deepcopy` has copied. -/
abbrev Memo := List (ℕ × ℕ)

/-- `deepcopy(self._outputs, memo)` -/
def deepcopyOutputs (cell : ℕ) (memo : Memo) (d : Dictionaries) : ℕ × Memo × Dictionaries :=
  match memo.lookup cell with
  | some copy => (copy, memo, d)
  | none => (d.outputs.next, (cell, d.outputs.next) :: memo,
      { d with outputs := d.outputs.alloc (d.outputs.cell cell) })

/-- `__deepcopy__` -/
def GraphComponent.deepcopy (c : GraphComponent) (memo : Memo) (d : Dictionaries) :
    GraphComponent × Memo × Dictionaries :=
  ({ c with outputs := (deepcopyOutputs c.outputs memo d).1 }, (deepcopyOutputs c.outputs memo d).2)

/-- The entries of a dictionary of components are copied in order. -/
def deepcopyEntries : List (String × GraphComponent) → Memo → Dictionaries →
    List (String × GraphComponent) × Memo × Dictionaries
  | [], memo, d => ([], memo, d)
  | (key, c) :: entries, memo, d =>
    let copied := c.deepcopy memo d
    let rest := deepcopyEntries entries copied.2.1 copied.2.2
    ((key, copied.1) :: rest.1, rest.2)

theorem map_name_deepcopyEntries (entries : List (String × GraphComponent)) (memo : Memo)
    (d : Dictionaries) : (deepcopyEntries entries memo d).1.map (fun p => (p.1, p.2.name)) =
      entries.map fun p => (p.1, p.2.name) := by
  induction entries generalizing memo d with
  | nil => rfl
  | cons entry entries ih =>
    rw [deepcopyEntries, List.map_cons, List.map_cons, ih]
    rfl

/-- `deepcopy` of an entity. -/
def GraphEntity.deepcopy (e : GraphEntity) (d : Dictionaries) : GraphEntity × Dictionaries :=
  let copied := deepcopyEntries e.componentMap.entries [] d
  have hnames := map_name_deepcopyEntries e.componentMap.entries [] d
  ({ entityId := e.entityId
     componentMap := ⟨copied.1, by
      have hkeys := congrArg (List.map Prod.fst) hnames
      simp only [List.map_map, Function.comp_def] at hkeys
      exact hkeys ▸ e.componentMap.nodupKeys⟩
     named := by
      intro p hp
      have hmem : (p.1, p.2.name) ∈ e.componentMap.entries.map fun q => (q.1, q.2.name) :=
        hnames ▸ List.mem_map_of_mem hp
      obtain ⟨q, hq, heq⟩ := List.mem_map.mp hmem
      obtain ⟨hkey, hname⟩ := Prod.mk.inj heq
      rw [← hkey, ← hname]
      exact e.named q hq }, copied.2.2)

/-! ## Accesses -/

/-- What a variable refers to. -/
inductive Referent
  | entity (e : GraphEntity)
  | component (c : GraphComponent)

namespace Referent

def useInputOutputs (inputs outputs : ℕ) : Referent → Referent
  | entity e => entity (e.useInputOutputs inputs outputs)
  | component c => component (c.useInputOutputs inputs outputs)

def deepcopy (d : Dictionaries) : Referent → Referent × Dictionaries
  | entity e => (entity (e.deepcopy d).1, (e.deepcopy d).2)
  | component c => (component (c.deepcopy [] d).1, (c.deepcopy [] d).2.2)

/-- The component `v[name]` of an entity or the component `v` itself. -/
def component? : Referent → Option String → Option GraphComponent
  | entity e, some name => e.componentMap.get? name
  | component c, none => some c
  | _, _ => none

end Referent

/-- An access to an attribute through a handle, which writes the given node or reads. -/
structure Access (H : Type) where
  handle : H
  component : Option String
  attributeName : String
  value : Option Node

variable {H : Type} (objects : H → Option Referent)

namespace Access

/-- The component object that is accessed. -/
def object (a : Access H) : Option GraphComponent :=
  (objects a.handle).bind fun r => r.component? a.component

def attrRef (a : Access H) : Option AttributeRef :=
  (a.object objects).map fun c => c.attrRef a.attributeName

end Access

/-- One access; `none` is an exception, on a component that is not there. -/
def step (d : Dictionaries) (a : Access H) : Option (Option Node × Dictionaries) :=
  match a.object objects, a.value with
  | none, _ => none
  | some c, none => some (some (c.getAttr a.attributeName d).1, (c.getAttr a.attributeName d).2)
  | some c, some value => some (none, c.setAttr a.attributeName value d)

/-! ## What a deep copy shares -/

/-- The state of a call of `deepcopy` that began with the dictionaries `start`: the inputs are
as they were, and every cell in the memo has its contents in a new cell. -/
structure Copying (start : Dictionaries) (memo : Memo) (d : Dictionaries) : Prop where
  inputs : d.inputs = start.inputs
  extends_ : start.outputs.Extends d.outputs
  copies : ∀ cell copy, memo.lookup cell = some copy → start.outputs.next ≤ copy ∧
    copy < d.outputs.next ∧ d.outputs.cell copy = start.outputs.cell cell

theorem copying_start (start : Dictionaries) : Copying start [] start :=
  ⟨rfl, .refl _, fun _ _ h => by cases h⟩

/-- The component with its outputs in the cell that the memo has for them. -/
def GraphComponent.redirect (memo : Memo) (c : GraphComponent) : GraphComponent :=
  { c with outputs := (memo.lookup c.outputs).getD c.outputs }

section
variable {start d : Dictionaries} {memo : Memo}

/-- One more dictionary of outputs is copied, if it was not before. -/
theorem Copying.deepcopyOutputs (h : Copying start memo d) {cell : ℕ}
    (hcell : cell < start.outputs.next) :
    Copying start (deepcopyOutputs cell memo d).2.1 (deepcopyOutputs cell memo d).2.2 ∧
      (deepcopyOutputs cell memo d).2.1.lookup cell = some (deepcopyOutputs cell memo d).1 ∧
      ∀ o k, memo.lookup o = some k → (deepcopyOutputs cell memo d).2.1.lookup o = some k := by
  rw [Plot.deepcopyOutputs]
  cases hlookup : memo.lookup cell with
  | some copy => exact ⟨h, hlookup, fun _ _ hok => hok⟩
  | none =>
    have hext := h.extends_.trans (Heap.extends_alloc d.outputs (d.outputs.cell cell))
    refine ⟨⟨h.inputs, hext, fun o k hok => ?_⟩, by simp, fun o k hok => ?_⟩
    · rw [List.lookup_cons] at hok
      split at hok
      next heq =>
        rw [← Option.some.inj hok, beq_iff_eq.mp heq]
        refine ⟨h.extends_.next, Nat.lt_succ_self _, ?_⟩
        rw [Heap.cell_alloc_next]
        exact h.extends_.cell cell hcell
      next =>
        obtain ⟨hle, hlt, hcopy⟩ := h.copies o k hok
        refine ⟨hle, hlt.trans (Nat.lt_succ_self _), ?_⟩
        rw [Heap.cell_alloc_of_lt hlt, hcopy]
    · have hne : (o == cell) = false := by
        rw [beq_eq_false_iff_ne]
        intro heq
        rw [heq, hlookup] at hok
        cases hok
      rw [List.lookup_cons, hne]
      exact hok

/-- All components are copied with the cells of the memo that the call ends with. -/
theorem Copying.deepcopyEntries {entries : List (String × GraphComponent)}
    (h : Copying start memo d) (hcells : ∀ p ∈ entries, p.2.outputs < start.outputs.next) :
    Copying start (deepcopyEntries entries memo d).2.1 (deepcopyEntries entries memo d).2.2 ∧
      (∀ o k, memo.lookup o = some k →
        (deepcopyEntries entries memo d).2.1.lookup o = some k) ∧
      (deepcopyEntries entries memo d).1 =
        entries.map (fun p => (p.1, p.2.redirect (deepcopyEntries entries memo d).2.1)) ∧
      ∀ p ∈ entries, ∃ k, (deepcopyEntries entries memo d).2.1.lookup p.2.outputs = some k := by
  induction entries generalizing memo d with
  | nil => exact ⟨h, fun _ _ hok => hok, rfl, fun _ hp => by cases hp⟩
  | cons p entries ih =>
    obtain ⟨hone, hself, hgrow⟩ := h.deepcopyOutputs (hcells p List.mem_cons_self)
    obtain ⟨hrest, hgrow', hcopied, hall⟩ :=
      ih hone fun q hq => hcells q (List.mem_cons_of_mem p hq)
    have hfirst := hgrow' _ _ hself
    refine ⟨hrest, fun o k hok => hgrow' o k (hgrow o k hok), ?_, fun q hq => ?_⟩
    · simp only [Plot.deepcopyEntries, GraphComponent.deepcopy, List.map_cons,
        GraphComponent.redirect] at hcopied ⊢
      rw [hfirst, hcopied, Option.getD_some]
    · rcases List.mem_cons.mp hq with rfl | hq
      · exact ⟨_, hfirst⟩
      · exact hall q hq

end

/-- What `deepcopy` makes of a referent: the components are those of the referent with their
outputs in new cells, one for each dictionary, that start with what the old ones contain. -/
structure Copied (r : Referent) (d : Dictionaries) (σ : ℕ → ℕ) (r' : Referent)
    (d' : Dictionaries) : Prop where
  component : ∀ path, r'.component? path =
    (r.component? path).map fun c => { c with outputs := σ c.outputs }
  inputs : d'.inputs = d.inputs
  extends_ : d.outputs.Extends d'.outputs
  copies : ∀ path c, r.component? path = some c → d.outputs.next ≤ σ c.outputs ∧
    σ c.outputs < d'.outputs.next ∧ d'.outputs.cell (σ c.outputs) = d.outputs.cell c.outputs

/-- The outputs of all components are in cells that are in use. -/
def Referent.Allocated (r : Referent) (d : Dictionaries) : Prop :=
  ∀ path c, r.component? path = some c → c.outputs < d.outputs.next

theorem Referent.copied_deepcopy {r : Referent} {d : Dictionaries} (hr : r.Allocated d) :
    ∃ σ, Copied r d σ (r.deepcopy d).1 (r.deepcopy d).2 := by
  cases r with
  | component c =>
    obtain ⟨hone, hself, -⟩ := (copying_start d).deepcopyOutputs (hr none c rfl)
    refine ⟨fun _ => (deepcopyOutputs c.outputs [] d).1, ?_, hone.inputs, hone.extends_, ?_⟩
    · intro path
      cases path <;> rfl
    · rintro (_ | _) c' hc'
      · cases hc'
        exact hone.copies _ _ hself
      · cases hc'
  | entity e =>
    have hcells : ∀ p ∈ e.componentMap.entries, p.2.outputs < d.outputs.next :=
      fun p hp => hr (some p.1) p.2 (OrderedDict.get?_eq_some_iff.mpr hp)
    obtain ⟨hall, -, hcopied, hsome⟩ := (copying_start d).deepcopyEntries hcells
    refine ⟨fun o => ((deepcopyEntries e.componentMap.entries [] d).2.1.lookup o).getD o, ?_,
      hall.inputs, hall.extends_, ?_⟩
    · rintro (_ | name)
      · rfl
      · have hmap : (e.deepcopy d).1.componentMap = e.componentMap.map
            (GraphComponent.redirect (deepcopyEntries e.componentMap.entries [] d).2.1) :=
          OrderedDict.ext hcopied
        exact (congrArg (fun m => m.get? name) hmap).trans (OrderedDict.get?_map _ _ _)
    · rintro (_ | name) c hc
      · cases hc
      · obtain ⟨k, hk⟩ := hsome (name, c) (OrderedDict.get?_eq_some_iff.mp hc)
        have hget : ((deepcopyEntries e.componentMap.entries [] d).2.1.lookup c.outputs).getD
            c.outputs = k := by rw [hk, Option.getD_some]
        rw [hget]
        exact hall.copies _ _ hk

/-! ## What an access does -/

theorem Referent.component?_useInputOutputs (r : Referent) (i o : ℕ) (path : Option String) :
    (r.useInputOutputs i o).component? path =
      (r.component? path).map (GraphComponent.useInputOutputs i o) := by
  cases r with
  | component c => cases path <;> rfl
  | entity e =>
    cases path with
    | none => rfl
    | some name => exact OrderedDict.get?_map _ _ _

namespace GraphComponent

@[simp] theorem outputs_getAttr (c : GraphComponent) (name : String) (d : Dictionaries) :
    (c.getAttr name d).2.outputs = d.outputs := by
  simp [getAttr, record, recorder]

theorem inputs_getAttr_self (c : GraphComponent) (name : String) (d : Dictionaries) :
    ((c.getAttr name d).2.inputs.cell c.inputs).keys =
      if (d.outputs.cell c.outputs).get? (toStrAttr (c.attrRef name)) = none then
        ((d.inputs.cell c.inputs).insert (toStrAttr (c.attrRef name)) (c.attrRef name)).keys
      else (d.inputs.cell c.inputs).keys := by
  rw [getAttr, record, Heap.cell_set_self, Recorder.getAttr, recorder]
  cases (d.outputs.cell c.outputs).get? (toStrAttr (c.attrRef name)) <;> rfl

theorem inputs_getAttr_ne (c : GraphComponent) (name : String) (d : Dictionaries) {cell : ℕ}
    (h : cell ≠ c.inputs) : (c.getAttr name d).2.inputs.cell cell = d.inputs.cell cell :=
  Heap.cell_set_ne _ h _

theorem getAttr_fst (c : GraphComponent) (name : String) (d : Dictionaries) :
    (c.getAttr name d).1 = Recorder.definition (d.outputs.cell c.outputs) (c.attrRef name) :=
  Recorder.getAttr_fst _ _

@[simp] theorem inputs_setAttr (c : GraphComponent) (name : String) (value : Node)
    (d : Dictionaries) : (c.setAttr name value d).inputs = d.inputs := by
  simp [setAttr, record, recorder]

theorem cell_setAttr_self (c : GraphComponent) (name : String) (value : Node)
    (d : Dictionaries) : (c.setAttr name value d).outputs.cell c.outputs =
      ((c.recorder d).setAttr (c.attrRef name) value).outputs :=
  Heap.cell_set_self _ _ _

theorem cell_setAttr_ne (c : GraphComponent) (name : String) (value : Node) (d : Dictionaries)
    {cell : ℕ} (h : cell ≠ c.outputs) :
    (c.setAttr name value d).outputs.cell cell = d.outputs.cell cell :=
  Heap.cell_set_ne _ h _

end GraphComponent

namespace Access

/-- The expression that the access assigns to an attribute; a self assignment is none. -/
def assigned (ref : AttributeRef) (a : Access H) : Option Node :=
  if a.attrRef objects = some ref then a.value.filter fun n => n ≠ .retrieve ref else none

/-- The same, for an object that records in the given cell. -/
def assignedIn (cell : ℕ) (ref : AttributeRef) (a : Access H) : Option Node :=
  if (a.object objects).map GraphComponent.outputs = some cell then a.assigned objects ref else none

/-- The name of the attribute has no slash, as all identifiers of Python. -/
def Named (a : Access H) : Prop := '/' ∉ a.attributeName.toList

/-- An object that notes its inputs in the given cell answered with the retrieve node of the
attribute, whose key is the given one. -/
def Retrieved (cell : ℕ) (key : String) (a : Access H) (ans : Option Node) : Prop :=
  ∃ c, a.object objects = some c ∧ c.inputs = cell ∧
    ans = some (.retrieve (c.attrRef a.attributeName)) ∧
    key = toStrAttr (c.attrRef a.attributeName)

end Access

/-- All outputs that are in reach are what `set_attr` can have recorded. -/
def Recorded (d : Dictionaries) : Prop :=
  ∀ h r path c, objects h = some r → r.component? path = some c →
    Recorder.Recorded (d.outputs.cell c.outputs)

variable {objects} {d d' : Dictionaries} {a : Access H} {ans : Option Node}

/-- An access reads or writes the component that is accessed. -/
theorem step_eq_some_iff : step objects d a = some (ans, d') ↔ ∃ c, a.object objects = some c ∧
    (a.value = none ∧ ans = some (c.getAttr a.attributeName d).1 ∧
        d' = (c.getAttr a.attributeName d).2 ∨
      ∃ n, a.value = some n ∧ ans = none ∧ d' = c.setAttr a.attributeName n d) := by
  rw [step]
  cases a.object objects with
  | none => simp
  | some c =>
    cases a.value with
    | none => simp [eq_comm]
    | some n => simp [eq_comm]

/-- **What an attribute stands for** in a cell after an access: the expression that was assigned
in that cell, else what it stood for before. -/
theorem definition_step (h : step objects d a = some (ans, d')) (ha : a.Named)
    {ref : AttributeRef} (href : '/' ∉ ref.attributeName.toList) (cell : ℕ) :
    Recorder.definition (d'.outputs.cell cell) ref =
      (a.assignedIn objects cell ref).getD (Recorder.definition (d.outputs.cell cell) ref) := by
  obtain ⟨c, hc, ⟨hv, -, rfl⟩ | ⟨n, hv, -, rfl⟩⟩ := step_eq_some_iff.mp h
  · have hnone : a.assignedIn objects cell ref = none := by
      simp [Access.assignedIn, Access.assigned, hv]
    rw [hnone, GraphComponent.outputs_getAttr, Option.getD_none]
  · by_cases hcell : cell = c.outputs
    · subst hcell
      have hin : a.assignedIn objects c.outputs ref =
          if c.attrRef a.attributeName = ref then (some n).filter fun n => n ≠ .retrieve ref
          else none := by
        simp [Access.assignedIn, Access.assigned, Access.attrRef, hc, hv]
      rw [hin, GraphComponent.cell_setAttr_self]
      by_cases hself : n = .retrieve (c.attrRef a.attributeName)
      · rw [hself, Recorder.setAttr_self]
        split
        next heq =>
          subst heq
          simp [Option.filter, GraphComponent.recorder]
        next => rfl
      · rw [Recorder.definition_setAttr hself]
        by_cases heq : c.attrRef a.attributeName = ref
        · subst heq
          simp [Option.filter, hself]
        · have hkey : toStrAttr ref ≠ toStrAttr (c.attrRef a.attributeName) := by
            intro hk
            have hname : '/' ∉ (c.attrRef a.attributeName).attributeName.toList := ha
            exact heq (toStrAttr_injective href hname hk).symm
          rw [if_neg hkey, if_neg heq]
          rfl
    · have hnone : a.assignedIn objects cell ref = none := by
        have hne : c.outputs ≠ cell := fun heq => hcell heq.symm
        simp [Access.assignedIn, hc, hne]
      rw [hnone, Option.getD_none, GraphComponent.cell_setAttr_ne _ _ _ _ hcell]

/-- What is recorded stays what `set_attr` can record. -/
theorem recorded_step (h : step objects d a = some (ans, d')) (ha : a.Named)
    (hd : Recorded objects d) : Recorded objects d' := by
  intro x r path c' hr hc'
  have hold := hd x r path c' hr hc'
  obtain ⟨c, -, ⟨-, -, rfl⟩ | ⟨n, -, -, rfl⟩⟩ := step_eq_some_iff.mp h
  · rwa [GraphComponent.outputs_getAttr]
  · by_cases hcell : c'.outputs = c.outputs
    · rw [hcell] at hold ⊢
      have hname : '/' ∉ (c.attrRef a.attributeName).attributeName.toList := ha
      have hrec : Recorder.Recorded (c.recorder d).outputs := hold
      rw [GraphComponent.cell_setAttr_self]
      exact hrec.setAttr hname n
    · rwa [GraphComponent.cell_setAttr_ne _ _ _ _ hcell]

/-- The inputs gain a key exactly when the object answers with the retrieve node. -/
theorem mem_inputs_step (h : step objects d a = some (ans, d')) (ha : a.Named)
    (hd : Recorded objects d) (cell : ℕ) (key : String) :
    key ∈ (d'.inputs.cell cell).keys ↔
      key ∈ (d.inputs.cell cell).keys ∨ a.Retrieved objects cell key ans := by
  obtain ⟨c, hc, hcase⟩ := step_eq_some_iff.mp h
  have hretrieved : a.Retrieved objects cell key ans ↔ c.inputs = cell ∧
      ans = some (.retrieve (c.attrRef a.attributeName)) ∧
      key = toStrAttr (c.attrRef a.attributeName) := by
    simp [Access.Retrieved, hc]
  rw [hretrieved]
  rcases hcase with ⟨-, rfl, rfl⟩ | ⟨n, -, rfl, rfl⟩
  · have hrec : Recorder.Recorded (d.outputs.cell c.outputs) := by
      rw [Access.object, Option.bind_eq_some_iff] at hc
      obtain ⟨r, hr, hpath⟩ := hc
      exact hd a.handle r a.component c hr hpath
    have hiff := hrec.definition_eq_retrieve_iff
      (show '/' ∉ (c.attrRef a.attributeName).attributeName.toList from ha)
    rw [GraphComponent.getAttr_fst, Option.some.injEq, hiff]
    by_cases hcell : cell = c.inputs
    · subst hcell
      rw [GraphComponent.inputs_getAttr_self]
      split
      next hget => simp [hget, OrderedDict.mem_keys_insert, or_comm]
      next hget => simp [hget]
    · rw [GraphComponent.inputs_getAttr_ne _ _ _ hcell]
      simp [Ne.symm hcell]
  · rw [GraphComponent.inputs_setAttr]
    simp

/-- The inputs after a run have the keys from before and those that were retrieved. -/
theorem mem_inputs_run {as : List (Access H)} {os : List (Option Node)}
    (h : Machine.run (step objects) d as = some (os, d')) (has : ∀ a ∈ as, a.Named)
    (hd : Recorded objects d) (cell : ℕ) (key : String) :
    key ∈ (d'.inputs.cell cell).keys ↔ key ∈ (d.inputs.cell cell).keys ∨
      ∃ r ∈ as.zip os, r.1.Retrieved objects cell key r.2 := by
  induction as generalizing d os with
  | nil =>
    cases h
    simp
  | cons a as ih =>
    obtain ⟨ans, d₁, os', hstep, hrest, rfl⟩ := Machine.run_cons_eq_some_iff.mp h
    have ha := has a List.mem_cons_self
    rw [ih hrest (fun a' ha' => has a' (List.mem_cons_of_mem a ha')) (recorded_step hstep ha hd),
      mem_inputs_step hstep ha hd, List.zip_cons_cons, or_assoc, List.exists_mem_cons_iff]

/-- **A run of accesses** leaves the expression that was assigned last. -/
theorem definition_run {as : List (Access H)} {os : List (Option Node)}
    (h : Machine.run (step objects) d as = some (os, d')) (has : ∀ a ∈ as, a.Named)
    {ref : AttributeRef} (href : '/' ∉ ref.attributeName.toList) (cell : ℕ) :
    Recorder.definition (d'.outputs.cell cell) ref =
      History.latest (Access.assignedIn objects cell ref)
        (Recorder.definition (d.outputs.cell cell) ref) as := by
  induction as generalizing d os with
  | nil =>
    cases h
    rfl
  | cons a as ih =>
    obtain ⟨ans, d₁, os', hstep, hrest, rfl⟩ := Machine.run_cons_eq_some_iff.mp h
    rw [History.latest_cons, ← definition_step hstep (has a List.mem_cons_self) href]
    exact ih hrest fun a' ha' => has a' (List.mem_cons_of_mem a ha')

/-- A read answers with the latest assignment in the cell of its object. -/
theorem getElem?_read {pre post as : List (Access H)} {os : List (Option Node)}
    (h : Machine.run (step objects) d as = some (os, d')) (has : ∀ a ∈ as, a.Named)
    (hsplit : as = pre ++ a :: post) (hread : a.value = none) {c : GraphComponent}
    (hc : a.object objects = some c) :
    os[pre.length]? = some (some (History.latest
      (Access.assignedIn objects c.outputs (c.attrRef a.attributeName))
      (Recorder.definition (d.outputs.cell c.outputs) (c.attrRef a.attributeName)) pre)) := by
  subst hsplit
  obtain ⟨os₁, d₁, ans, d₂, hpre, hstep, hget⟩ := Machine.getElem?_of_run h
  have hnamed : '/' ∉ (c.attrRef a.attributeName).attributeName.toList := has a (by simp)
  have hdef := definition_run hpre (fun a' ha' => has a' (List.mem_append_left _ ha')) hnamed
    c.outputs
  rw [← hdef, hget, ← GraphComponent.getAttr_fst]
  simp only [step, hc, hread, Option.some.injEq, Prod.mk.injEq] at hstep
  rw [← hstep.1]

end Bentobox.Sdk.Plot
