import Bentobox.Sdk.Expression
import Bentobox.Sdk.Plotters

/-!
# Declared inputs

A trace works on the entities of a plotter, on deep copies of them and on the objects that it
got so far. Whatever it does, the attributes that are retrieved anywhere in its objects and in its
outputs are noted in the inputs of the plotter, each of them once.
-/
namespace Bentobox.Sdk

/-! ## Retrieve nodes in objects -/

/-- The attributes that an object retrieves. -/
def Object.retrieves : Object → List AttributeRef
  | native _ => []
  | message node | graphNode node => node.retrieves

theorem Object.retrieves_wrap {o : Object} {n : Node} (h : o.wrap = .ok n) :
    n.retrieves = o.retrieves := by
  cases o with
  | native val =>
    obtain ⟨v, -, rfl⟩ := Fallible.map_eq_ok_iff.mp h
    rfl
  | message node | graphNode node =>
    cases h
    rfl

theorem CompareOperator.retrieves_overload (op : CompareOperator) (self other : Node) :
    (op.overload self other).retrieves ⊆ self.retrieves ++ other.retrieves := by
  intro ref
  cases op <;> simp [overload, Object.retrieves, Node.retrieves] <;> grind

/-- Comparing a message makes no retrieve nodes. -/
def Python.MakesNoRetrieves (py : Python) : Prop :=
  ∀ op x y o, py.compareMessage op x y = .ok o → o.retrieves ⊆ x.retrieves ++ y.retrieves

namespace Python
variable {py : Python} {x y o : Object}

theorem retrieves_arithmeticOp {op : ArithmeticOperator} (h : py.arithmeticOp op x y = .ok o) :
    o.retrieves ⊆ x.retrieves ++ y.retrieves := by
  rcases arithmeticOp_cases h with ⟨-, n, m, hn, hm, rfl⟩ | ⟨-, v, -, rfl⟩
  · rw [← Object.retrieves_wrap hn, ← Object.retrieves_wrap hm]
    exact List.Subset.refl _
  · exact List.nil_subset _

theorem retrieves_negativeOp (h : py.negativeOp x = .ok o) : o.retrieves ⊆ x.retrieves := by
  cases x with
  | graphNode self =>
    cases h
    exact List.Subset.refl _
  | native | message =>
    obtain ⟨v, -, rfl⟩ := Fallible.map_eq_ok_iff.mp h
    exact List.nil_subset _

theorem retrieves_positiveOp (h : py.positiveOp x = .ok o) : o.retrieves ⊆ x.retrieves := by
  cases x with
  | graphNode self =>
    cases h
    exact List.Subset.refl _
  | native | message =>
    obtain ⟨v, -, rfl⟩ := Fallible.map_eq_ok_iff.mp h
    exact List.nil_subset _

theorem retrieves_compareOp (hpy : py.MakesNoRetrieves) {op : CompareOperator}
    (h : py.compareOp op x y = .ok o) : o.retrieves ⊆ x.retrieves ++ y.retrieves := by
  have hreflected : ∀ self other : Node, (op.reflected.overload self other).retrieves ⊆
      other.retrieves ++ self.retrieves := fun self other =>
    List.Subset.trans (op.reflected.retrieves_overload self other) List.perm_append_comm.subset
  cases x with
  | graphNode self =>
    obtain ⟨other, hother, rfl⟩ := Fallible.map_eq_ok_iff.mp h
    rw [← Object.retrieves_wrap hother]
    exact op.retrieves_overload self other
  | native val =>
    cases y with
    | graphNode self =>
      obtain ⟨other, hother, rfl⟩ := Fallible.map_eq_ok_iff.mp h
      rw [← Object.retrieves_wrap hother]
      exact hreflected self other
    | native val' =>
      obtain ⟨v, -, rfl⟩ := Fallible.map_eq_ok_iff.mp h
      exact List.nil_subset _
    | message node => exact hpy _ _ _ _ h
  | message node =>
    cases y with
    | graphNode self =>
      cases op
      case eq | ne => exact hpy _ _ _ _ h
      all_goals
        cases h
        exact hreflected self node
    | native val => exact hpy _ _ _ _ h
    | message node' => exact hpy _ _ _ _ h

end Python

namespace Plotter
variable {c x y o : Object}

theorem retrieves_unary {fn : PlotterUnary} (h : unary fn x = .ok o) :
    o.retrieves = x.retrieves := by
  cases fn with
  | abs => cases h
  | _ =>
    obtain ⟨n, hn, rfl⟩ := Fallible.map_eq_ok_iff.mp h
    rw [← Object.retrieves_wrap hn]
    rfl

theorem retrieves_binary {fn : PlotterBinary} (h : binary fn x y = .ok o) :
    o.retrieves = x.retrieves ++ y.retrieves := by
  obtain ⟨n, hn, h⟩ := Fallible.result_bind_eq_ok_iff.mp h
  obtain ⟨m, hm, h⟩ := Fallible.result_bind_eq_ok_iff.mp h
  cases h
  rw [← Object.retrieves_wrap hn, ← Object.retrieves_wrap hm]
  rfl

theorem retrieves_switch (h : switch c x y = .ok o) :
    o.retrieves = c.retrieves ++ x.retrieves ++ y.retrieves := by
  obtain ⟨k, hk, h⟩ := Fallible.result_bind_eq_ok_iff.mp h
  obtain ⟨n, hn, h⟩ := Fallible.result_bind_eq_ok_iff.mp h
  obtain ⟨m, hm, h⟩ := Fallible.result_bind_eq_ok_iff.mp h
  cases h
  rw [← Object.retrieves_wrap hk, ← Object.retrieves_wrap hn, ← Object.retrieves_wrap hm]
  rfl

theorem retrieves_random (h : random x y = .ok o) : o.retrieves = x.retrieves ++ y.retrieves := by
  obtain ⟨n, hn, h⟩ := Fallible.result_bind_eq_ok_iff.mp h
  obtain ⟨m, hm, h⟩ := Fallible.result_bind_eq_ok_iff.mp h
  cases h
  rw [← Object.retrieves_wrap hn, ← Object.retrieves_wrap hm]
  rfl

end Plotter

/-- **An expression makes no retrieve nodes**: what its object retrieves, the objects at its leaves
retrieve. -/
theorem Expr.retrieves_object {L : Type} {py : Python} (hpy : py.MakesNoRetrieves)
    {obj : L → Except PythonError Object} {listed : List AttributeRef}
    (hleaf : ∀ l o, obj l = .ok o → o.retrieves ⊆ listed) {e : Expr L} {o : Object}
    (h : e.object py obj = .ok o) : o.retrieves ⊆ listed := by
  induction e generalizing o with
  | const val =>
    cases h
    exact List.nil_subset _
  | leaf l => exact hleaf l o h
  | arithmetic op x y hx hy =>
    obtain ⟨a, ha, h⟩ := Fallible.result_bind_eq_ok_iff.mp h
    obtain ⟨b, hb, h⟩ := Fallible.result_bind_eq_ok_iff.mp h
    exact List.Subset.trans (Python.retrieves_arithmeticOp h)
      (List.append_subset.mpr ⟨hx ha, hy hb⟩)
  | negative x hx =>
    obtain ⟨a, ha, h⟩ := Fallible.result_bind_eq_ok_iff.mp h
    exact List.Subset.trans (Python.retrieves_negativeOp h) (hx ha)
  | positive x hx =>
    obtain ⟨a, ha, h⟩ := Fallible.result_bind_eq_ok_iff.mp h
    exact List.Subset.trans (Python.retrieves_positiveOp h) (hx ha)
  | compare op x y hx hy =>
    obtain ⟨a, ha, h⟩ := Fallible.result_bind_eq_ok_iff.mp h
    obtain ⟨b, hb, h⟩ := Fallible.result_bind_eq_ok_iff.mp h
    exact List.Subset.trans (Python.retrieves_compareOp hpy h)
      (List.append_subset.mpr ⟨hx ha, hy hb⟩)
  | and x y hx hy =>
    obtain ⟨a, ha, h⟩ := Fallible.result_bind_eq_ok_iff.mp h
    split at h
    · exact hy h
    · cases h
      exact hx ha
  | or x y hx hy =>
    obtain ⟨a, ha, h⟩ := Fallible.result_bind_eq_ok_iff.mp h
    split at h
    · cases h
      exact hx ha
    · exact hy h
  | not x hx =>
    obtain ⟨a, -, h⟩ := Fallible.result_bind_eq_ok_iff.mp h
    cases h
    exact List.nil_subset _
  | unary fn x hx =>
    obtain ⟨a, ha, h⟩ := Fallible.result_bind_eq_ok_iff.mp h
    rw [Plotter.retrieves_unary h]
    exact hx ha
  | binary fn x y hx hy =>
    obtain ⟨a, ha, h⟩ := Fallible.result_bind_eq_ok_iff.mp h
    obtain ⟨b, hb, h⟩ := Fallible.result_bind_eq_ok_iff.mp h
    rw [Plotter.retrieves_binary h]
    exact List.append_subset.mpr ⟨hx ha, hy hb⟩
  | switch c x y hc hx hy | ternary c x y hc hx hy =>
    obtain ⟨d, hd, h⟩ := Fallible.result_bind_eq_ok_iff.mp h
    obtain ⟨a, ha, h⟩ := Fallible.result_bind_eq_ok_iff.mp h
    obtain ⟨b, hb, h⟩ := Fallible.result_bind_eq_ok_iff.mp h
    rw [Plotter.retrieves_switch h]
    exact List.append_subset.mpr ⟨List.append_subset.mpr ⟨hc hd, hx ha⟩, hy hb⟩
  | random x y hx hy =>
    obtain ⟨a, ha, h⟩ := Fallible.result_bind_eq_ok_iff.mp h
    obtain ⟨b, hb, h⟩ := Fallible.result_bind_eq_ok_iff.mp h
    rw [Plotter.retrieves_random h]
    exact List.append_subset.mpr ⟨hx ha, hy hb⟩

/-! ## Traces -/

namespace Plot

/-- The dictionaries of the plotter with the entities and components that were looked up or copied
and the objects that were computed. -/
structure Trace where
  dictionaries : Dictionaries
  referents : List Referent
  values : List Object

/-- What a convert function does with the plotter, with earlier results by their number. An
attribute is accessed through an entity and a component name, or through a component. -/
inductive Command
  | entity (components : List String)
  | component (referent : ℕ) (name : String)
  | deepcopy (referent : ℕ)
  | getAttr (referent : ℕ) (component : Option String) (name : String)
  | setAttr (referent : ℕ) (component : Option String) (name : String) (value : ℕ)
  | apply (e : Expr ℕ)

/-- The attribute name has no slash, as all identifiers of Python. -/
def Command.Named : Command → Prop
  | getAttr _ _ name | setAttr _ _ name _ => '/' ∉ name.toList
  | _ => True

namespace Trace

def start : Trace := ⟨newDictionaries, [], []⟩

/-- The component object that is accessed. -/
def object (t : Trace) (referent : ℕ) (component : Option String) : Option GraphComponent :=
  t.referents[referent]?.bind fun r => r.component? component

/-- The object of an earlier result. -/
def value (t : Trace) (i : ℕ) : Except PythonError Object :=
  match t.values[i]? with
  | some o => .ok o
  | none => .error .indexError

/-- One command; `none` is an exception, which leaves the trace as it was. -/
def call (py : Python) (g : Plotter) (t : Trace) : Command → Option Trace
  | .entity components => (g.entity components).toOption.map fun e =>
    { t with referents := t.referents ++ [.entity e] }
  | .component referent name => (t.object referent (some name)).map fun c =>
    { t with referents := t.referents ++ [.component c] }
  | .deepcopy referent => t.referents[referent]?.map fun r =>
    { t with
      dictionaries := (r.deepcopy t.dictionaries).2
      referents := t.referents ++ [(r.deepcopy t.dictionaries).1] }
  | .getAttr referent component name => (t.object referent component).map fun c =>
    { t with
      dictionaries := (c.getAttr name t.dictionaries).2
      values := t.values ++ [.graphNode (c.getAttr name t.dictionaries).1] }
  | .setAttr referent component name value => (t.object referent component).bind fun c =>
    ((t.value value).bind Object.wrap).toOption.map fun node =>
      { t with dictionaries := c.setAttr name node t.dictionaries }
  | .apply e => (e.object py t.value).toOption.map fun o => { t with values := t.values ++ [o] }

def step (py : Python) (g : Plotter) (t : Trace) (c : Command) : Option (Unit × Trace) :=
  (t.call py g c).map fun t' => ((), t')

end Trace

/-! ## The dictionary of inputs -/

/-- Attributes without a slash in their name are noted under their keys. -/
def Keyed (inputs : OrderedDict String AttributeRef) : Prop :=
  ∀ p ∈ inputs.entries, p.1 = toStrAttr p.2 ∧ '/' ∉ p.2.attributeName.toList

section Keyed
variable {inputs : OrderedDict String AttributeRef} {ref : AttributeRef}

theorem mem_values_iff (h : Keyed inputs) :
    ref ∈ inputs.values ↔ inputs.get? (toStrAttr ref) = some ref := by
  constructor
  · intro hmem
    obtain ⟨p, hp, rfl⟩ := List.mem_map.mp hmem
    rw [← (h p hp).1]
    exact OrderedDict.get?_eq_some_iff.mpr hp
  · intro hget
    exact List.mem_map_of_mem (OrderedDict.get?_eq_some_iff.mp hget)

/-- Noting another attribute keeps those that are noted. -/
theorem Keyed.insert (h : Keyed inputs) (href : '/' ∉ ref.attributeName.toList) :
    Keyed (inputs.insert (toStrAttr ref) ref) ∧
      inputs.values ⊆ (inputs.insert (toStrAttr ref) ref).values ∧
      ref ∈ (inputs.insert (toStrAttr ref) ref).values := by
  have hkeyed : Keyed (inputs.insert (toStrAttr ref) ref) := by
    intro p hp
    have hget := OrderedDict.get?_eq_some_iff.mpr hp
    rw [OrderedDict.get?_insert] at hget
    split at hget
    next hkey =>
      rw [← Option.some.inj hget]
      exact ⟨hkey, href⟩
    next => exact h p (OrderedDict.get?_eq_some_iff.mp hget)
  refine ⟨hkeyed, fun ref' hmem => ?_, ?_⟩
  · rw [mem_values_iff hkeyed, OrderedDict.get?_insert]
    obtain ⟨p, hp, rfl⟩ := List.mem_map.mp hmem
    split
    next hkey => rw [toStrAttr_injective (h p hp).2 href hkey]
    next => exact (mem_values_iff h).mp hmem
  · rw [mem_values_iff hkeyed, OrderedDict.get?_insert_self]

theorem Keyed.count_eq_one (h : Keyed inputs) (href : ref ∈ inputs.values) :
    inputs.values.count ref = 1 := by
  have hkeys : inputs.values.map toStrAttr = inputs.keys := by
    rw [OrderedDict.values, OrderedDict.keys, List.map_map]
    exact List.map_congr_left fun p hp => (h p hp).1.symm
  have hnodup : inputs.values.Nodup := .of_map toStrAttr (hkeys ▸ inputs.nodup_keys)
  exact List.count_eq_one_of_mem hnodup href

end Keyed

/-! ## What a trace has noted -/

/-- Every dictionary of outputs after a copy was there before. -/
structure OutputsFrom (d d' : Dictionaries) : Prop where
  inputs : d'.inputs = d.inputs
  outputs : ∀ cell, ∃ cell', d'.outputs.cell cell = d.outputs.cell cell'

theorem outputsFrom_deepcopyOutputs (cell : ℕ) (memo : Memo) (d : Dictionaries) :
    OutputsFrom d (deepcopyOutputs cell memo d).2.2 := by
  rw [deepcopyOutputs]
  split
  · exact ⟨rfl, fun cell' => ⟨cell', rfl⟩⟩
  · refine ⟨rfl, fun cell' => ?_⟩
    simp only [Heap.alloc]
    split
    · exact ⟨cell, rfl⟩
    · exact ⟨cell', rfl⟩

/-- The copies of components note their inputs where the components do. -/
theorem outputsFrom_deepcopyEntries (entries : List (String × GraphComponent)) (memo : Memo)
    (d : Dictionaries) : OutputsFrom d (deepcopyEntries entries memo d).2.2 ∧
      ∀ p ∈ (deepcopyEntries entries memo d).1, ∃ q ∈ entries, p.2.inputs = q.2.inputs := by
  induction entries generalizing memo d with
  | nil => exact ⟨⟨rfl, fun cell => ⟨cell, rfl⟩⟩, fun p hp => by cases hp⟩
  | cons entry entries ih =>
    have hone := outputsFrom_deepcopyOutputs entry.2.outputs memo d
    obtain ⟨hrest, hentries⟩ := ih (entry.2.deepcopy memo d).2.1 (entry.2.deepcopy memo d).2.2
    refine ⟨⟨hrest.inputs.trans hone.inputs, fun cell => ?_⟩, fun p hp => ?_⟩
    · obtain ⟨cell', hcell'⟩ := hrest.outputs cell
      obtain ⟨cell'', hcell''⟩ := hone.outputs cell'
      exact ⟨cell'', hcell'.trans hcell''⟩
    · rcases List.mem_cons.mp hp with rfl | hp
      · exact ⟨entry, List.mem_cons_self, rfl⟩
      · obtain ⟨q, hq, heq⟩ := hentries p hp
        exact ⟨q, List.mem_cons_of_mem entry hq, heq⟩

/-- All components of the referent note their inputs in the dictionary of the plotter. -/
def Referent.OnPlotter (r : Referent) : Prop := ∀ path c, r.component? path = some c → c.inputs = 0

theorem Referent.OnPlotter.deepcopy {r : Referent} (hr : r.OnPlotter) (d : Dictionaries) :
    OutputsFrom d (r.deepcopy d).2 ∧ (r.deepcopy d).1.OnPlotter := by
  cases r with
  | component c =>
    refine ⟨outputsFrom_deepcopyOutputs c.outputs [] d, fun path c' hc' => ?_⟩
    cases path with
    | some name => cases hc'
    | none =>
      cases hc'
      exact hr none c rfl
  | entity e =>
    obtain ⟨hfrom, hentries⟩ := outputsFrom_deepcopyEntries e.componentMap.entries [] d
    refine ⟨hfrom, fun path c' hc' => ?_⟩
    cases path with
    | none => cases hc'
    | some name =>
      obtain ⟨q, hq, heq⟩ := hentries (name, c') (OrderedDict.get?_eq_some_iff.mp hc')
      exact heq.trans (hr (some q.1) q.2 (OrderedDict.get?_eq_some_iff.mpr hq))

/-- Whatever is retrieved in an object or in an output of the plotter or a copy is noted. -/
structure Trace.Noted (t : Trace) : Prop where
  keyed : Keyed (t.dictionaries.inputs.cell 0)
  referents : ∀ r ∈ t.referents, r.OnPlotter
  values : ∀ o ∈ t.values, o.retrieves ⊆ (t.dictionaries.inputs.cell 0).values
  outputs : ∀ cell key output, (t.dictionaries.outputs.cell cell).get? key = some output →
    output.toNode.retrieves ⊆ (t.dictionaries.inputs.cell 0).values

namespace Trace
variable {py : Python} {g : Plotter} {t t' : Trace}

theorem noted_start : start.Noted where
  keyed := fun _ hp => by cases hp
  referents := fun _ hr => by cases hr
  values := fun _ ho => by cases ho
  outputs := fun _ _ _ h => by cases h

theorem Noted.object (h : t.Noted) {referent : ℕ} {component : Option String} {c : GraphComponent}
    (hc : t.object referent component = some c) : c.inputs = 0 := by
  obtain ⟨r, hr, hcomp⟩ := Option.bind_eq_some_iff.mp hc
  exact h.referents r (List.mem_of_getElem? hr) component c hcomp

theorem Noted.value (h : t.Noted) (i : ℕ) (o : Object) (ho : t.value i = .ok o) :
    o.retrieves ⊆ (t.dictionaries.inputs.cell 0).values := by
  rw [Trace.value] at ho
  split at ho
  next hget =>
    cases ho
    exact h.values o (List.mem_of_getElem? hget)
  next => cases ho

/-- What reads an attribute notes it, or finds its node in the outputs. -/
theorem Noted.getAttr (h : t.Noted) {c : GraphComponent} (hc : c.inputs = 0) {name : String}
    (hname : '/' ∉ name.toList) :
    Noted { t with
      dictionaries := (c.getAttr name t.dictionaries).2
      values := t.values ++ [.graphNode (c.getAttr name t.dictionaries).1] } := by
  have hnode := c.getAttr_fst name t.dictionaries
  have hinputs : (c.getAttr name t.dictionaries).2.inputs.cell 0 =
      ((c.recorder t.dictionaries).getAttr (c.attrRef name)).2.inputs := by
    rw [GraphComponent.getAttr, GraphComponent.record, hc]
    exact Heap.cell_set_self _ _ _
  rw [Recorder.definition] at hnode
  rw [Recorder.getAttr] at hinputs
  simp only [GraphComponent.recorder, hc] at hinputs
  cases hget : (t.dictionaries.outputs.cell c.outputs).get? (toStrAttr (c.attrRef name)) with
  | some output =>
    rw [hget] at hnode hinputs
    refine ⟨hinputs ▸ h.keyed, h.referents, fun o ho => ?_, fun cell key output' hout => ?_⟩
    · rw [hinputs]
      rcases List.mem_append.mp ho with ho | ho
      · exact h.values o ho
      · obtain rfl := List.mem_singleton.mp ho
        rw [hnode]
        exact h.outputs _ _ _ hget
    · rw [hinputs]
      rw [GraphComponent.outputs_getAttr] at hout
      exact h.outputs cell key output' hout
  | none =>
    rw [hget] at hnode hinputs
    have href : '/' ∉ (c.attrRef name).attributeName.toList := hname
    obtain ⟨hkeyed, hsub, hmem⟩ := h.keyed.insert href
    refine ⟨hinputs ▸ hkeyed, h.referents, fun o ho => ?_, fun cell key output' hout => ?_⟩
    · rw [hinputs]
      rcases List.mem_append.mp ho with ho | ho
      · exact List.Subset.trans (h.values o ho) hsub
      · obtain rfl := List.mem_singleton.mp ho
        rw [hnode]
        exact List.cons_subset.mpr ⟨hmem, List.nil_subset _⟩
    · rw [hinputs]
      rw [GraphComponent.outputs_getAttr] at hout
      exact List.Subset.trans (h.outputs cell key output' hout) hsub

/-- What is assigned to an attribute retrieves only what is noted. -/
theorem Noted.setAttr (h : t.Noted) (c : GraphComponent) (name : String) {node : Node}
    (hnode : node.retrieves ⊆ (t.dictionaries.inputs.cell 0).values) :
    Noted { t with dictionaries := c.setAttr name node t.dictionaries } := by
  have hinputs := c.inputs_setAttr name node t.dictionaries
  refine ⟨hinputs ▸ h.keyed, h.referents, hinputs ▸ h.values, fun cell key output hout => ?_⟩
  rw [hinputs]
  by_cases hcell : cell = c.outputs
  · rw [hcell, GraphComponent.cell_setAttr_self] at hout
    rcases Recorder.get?_setAttr hout with hold | ⟨-, rfl⟩
    · exact h.outputs _ _ _ hold
    · exact hnode
  · rw [GraphComponent.cell_setAttr_ne _ _ _ _ hcell] at hout
    exact h.outputs _ _ _ hout

/-- **A command** works on what is noted and notes what it retrieves. -/
theorem Noted.call (h : t.Noted) (hpy : py.MakesNoRetrieves)
    (hg : ∀ components e, g.entity components = .ok e → e.OnPlotter) {c : Command} (hc : c.Named)
    (hcall : t.call py g c = some t') : t'.Noted := by
  have hreferents : ∀ r : Referent, r.OnPlotter → ∀ r' ∈ t.referents ++ [r], r'.OnPlotter := by
    intro r hr r' hr'
    rcases List.mem_append.mp hr' with hr' | hr'
    · exact h.referents r' hr'
    · rwa [List.mem_singleton.mp hr']
  cases c with
  | entity components =>
    obtain ⟨e, he, rfl⟩ := Option.map_eq_some_iff.mp hcall
    have hon : (Referent.entity e).OnPlotter := by
      rintro (_ | name) c' hc'
      · cases hc'
      · exact (hg _ e (Fallible.toOption_eq_some_iff.mp he) name c' hc').1
    exact ⟨h.keyed, hreferents _ hon, h.values, h.outputs⟩
  | component referent name =>
    obtain ⟨c, hobj, rfl⟩ := Option.map_eq_some_iff.mp hcall
    have hon : (Referent.component c).OnPlotter := by
      rintro (_ | name) c' hc'
      · cases hc'
        exact h.object hobj
      · cases hc'
    exact ⟨h.keyed, hreferents _ hon, h.values, h.outputs⟩
  | deepcopy referent =>
    obtain ⟨r, hr, rfl⟩ := Option.map_eq_some_iff.mp hcall
    obtain ⟨hfrom, hon⟩ := (h.referents r (List.mem_of_getElem? hr)).deepcopy t.dictionaries
    refine ⟨hfrom.inputs ▸ h.keyed, hreferents _ hon, hfrom.inputs ▸ h.values, ?_⟩
    intro cell key output hout
    obtain ⟨cell', heq⟩ := hfrom.outputs cell
    rw [hfrom.inputs]
    exact h.outputs cell' key output (heq ▸ hout)
  | getAttr referent component name =>
    obtain ⟨c, hobj, rfl⟩ := Option.map_eq_some_iff.mp hcall
    exact h.getAttr (h.object hobj) hc
  | setAttr referent component name value =>
    obtain ⟨c, hobj, hset⟩ := Option.bind_eq_some_iff.mp hcall
    obtain ⟨node, hnode, rfl⟩ := Option.map_eq_some_iff.mp hset
    obtain ⟨o, ho, hwrap⟩ :=
      Fallible.result_bind_eq_ok_iff.mp (Fallible.toOption_eq_some_iff.mp hnode)
    refine h.setAttr c name ?_
    rw [Object.retrieves_wrap hwrap]
    exact h.value value o ho
  | apply e =>
    obtain ⟨o, ho, rfl⟩ := Option.map_eq_some_iff.mp hcall
    have hsub := Expr.retrieves_object hpy h.value (Fallible.toOption_eq_some_iff.mp ho)
    refine ⟨h.keyed, h.referents, fun o' ho' => ?_, h.outputs⟩
    rcases List.mem_append.mp ho' with ho' | ho'
    · exact h.values o' ho'
    · rwa [List.mem_singleton.mp ho']

/-- **Declared inputs are complete**: every attribute that is retrieved in an output of the graph
is among its inputs, once. -/
theorem inputs_complete {entityDefs : List EntityDef} {componentDefs : List ComponentDef}
    (hpy : py.MakesNoRetrieves) (hg : Plotter.init entityDefs componentDefs = .ok g)
    {commands : List Command} (hnamed : ∀ c ∈ commands, c.Named) {us : List Unit}
    (hrun : Machine.run (step py g) start commands = some (us, t)) :
    ∀ output ∈ (Plotter.graph t.dictionaries).outputs, ∀ ref ∈ output.toNode.retrieves,
      (Plotter.graph t.dictionaries).inputs.count ref = 1 := by
  have hentities : ∀ components e, g.entity components = .ok e → e.OnPlotter := by
    intro components e he
    obtain ⟨entityDef, -, hstands⟩ := Plotter.entity_eq_ok hg he
    exact hstands.onPlotter
  have hnoted : t.Noted := by
    refine Machine.invariant_of_along (C := fun _ c => c.Named) (fun s c _ s' hs hc hstep => ?_)
      noted_start (Machine.along_of_mem (fun _ => hnamed) _) hrun
    obtain ⟨s₁, hcall, heq⟩ := Option.map_eq_some_iff.mp hstep
    cases heq
    exact hs.call hpy hentities hc hcall
  intro output hout ref href
  obtain ⟨p, hp, rfl⟩ := List.mem_map.mp hout
  have hget := OrderedDict.get?_eq_some_iff.mpr hp
  exact hnoted.keyed.count_eq_one (hnoted.outputs 0 p.1 p.2 hget href)

/-- The attribute x is read through the entity, y is written in a copy of it and read there, and
both end up in z. -/
def copyCommands : List Command :=
  [.entity ["Position"], .deepcopy 0, .getAttr 0 (some "Position") "x",
    .apply (.arithmetic .add (.leaf 0) (.const (.int 1))), .setAttr 1 (some "Position") "y" 1,
    .getAttr 1 (some "Position") "y", .apply (.switch (.leaf 0) (.leaf 1) (.leaf 2)),
    .setAttr 0 (some "Position") "z" 3]

theorem inputs_complete_copy : ∃ g us t,
    Plotter.init [⟨1, ["Position"]⟩] [⟨"Position", ∅⟩] = .ok g ∧
    Machine.run (step default g) start copyCommands = some (us, t) ∧
    ∀ output ∈ (Plotter.graph t.dictionaries).outputs, ∀ ref ∈ output.toNode.retrieves,
      (Plotter.graph t.dictionaries).inputs.count ref = 1 := by
  have hpy : Python.MakesNoRetrieves default := fun _ _ _ _ h => by cases h
  have hnamed : ∀ c ∈ copyCommands, c.Named := by
    simp [copyCommands, Command.Named]
  exact ⟨_, _, _, rfl, rfl, @inputs_complete default _ _ [⟨1, ["Position"]⟩] [⟨"Position", ∅⟩]
    hpy rfl copyCommands hnamed _ rfl⟩

end Trace
end Plot
end Bentobox.Sdk
