import Bentobox.Lib.Fallible
import Bentobox.Sdk.GraphNode

/-!
# The recorder

`GraphComponent` records the attributes that are read and written while a graph is
plotted, in two dictionaries that all components of a `Plotter` share. The keys are
the attribute references as text.

A recorded input is always the retrieve node of its attribute, so only the reference
is kept; a recorded output is the message `Node.Mutate` itself.
-/
namespace Bentobox.Sdk

/-- `to_str_attr` -/
def toStrAttr (attr : AttributeRef) : String :=
  toString attr.entityId.toNat ++ "/" ++ attr.component ++ "/" ++ attr.attributeName

/-- The component name of `ref'` goes on, behind a slash, with what the attribute name of `ref`
begins with. -/
def Shifted (ref ref' : AttributeRef) : Prop :=
  ref.entityId = ref'.entityId ∧ ∃ m, ref'.component = ref.component ++ "/" ++ m ∧
    ref.attributeName = m ++ "/" ++ ref'.attributeName

/-- Lists with a separator in them are the same, or the separator of one is inside the other. -/
private theorem append_cons_eq_iff {α : Type} {c : α} {l₁ l₂ m₁ m₂ : List α} :
    l₁ ++ c :: l₂ = m₁ ++ c :: m₂ ↔ (l₁ = m₁ ∧ l₂ = m₂) ∨
      (∃ t, m₁ = l₁ ++ c :: t ∧ l₂ = t ++ c :: m₂) ∨
        ∃ t, l₁ = m₁ ++ c :: t ∧ m₂ = t ++ c :: l₂ := by
  constructor
  · intro h
    rcases List.append_eq_append_iff.mp h with ⟨t, rfl, ht⟩ | ⟨t, rfl, ht⟩
    · cases t with
      | nil => exact .inl ⟨by simp, (List.cons.inj ht).2⟩
      | cons d t =>
        obtain ⟨rfl, rfl⟩ := List.cons.inj ht
        exact .inr (.inl ⟨t, rfl, rfl⟩)
    · cases t with
      | nil => exact .inl ⟨by simp, (List.cons.inj ht).2.symm⟩
      | cons d t =>
        obtain ⟨rfl, rfl⟩ := List.cons.inj ht
        exact .inr (.inr ⟨t, rfl, rfl⟩)
  · rintro (⟨rfl, rfl⟩ | ⟨t, rfl, rfl⟩ | ⟨t, rfl, rfl⟩) <;> simp

/-- Lists that agree up to the first occurrence of a separator. -/
private theorem append_cons_inj {α : Type} {c : α} {l₁ l₂ m₁ m₂ : List α} (hl : c ∉ l₁)
    (hm : c ∉ m₁) (h : l₁ ++ c :: l₂ = m₁ ++ c :: m₂) : l₁ = m₁ ∧ l₂ = m₂ := by
  rcases append_cons_eq_iff.mp h with heq | ⟨t, rfl, -⟩ | ⟨t, rfl, -⟩
  · exact heq
  · exact absurd (by simp) hm
  · exact absurd (by simp) hl

private theorem slash_notMem_toString (n : ℕ) : '/' ∉ (toString n).toList := by
  intro h
  have hd := Nat.isDigit_of_mem_toDigits (b := 10) (n := n) (c := '/') (by decide) (by decide)
    (by rw [← Nat.toList_repr]; exact h)
  exact absurd hd (by decide)

private theorem toString_injective {n m : ℕ} (h : (toString n).toList = (toString m).toList) :
    n = m := by
  have hd : Nat.toDigits 10 n = Nat.toDigits 10 m := by
    rw [← Nat.toList_repr, ← Nat.toList_repr]
    exact h
  rw [← Nat.ofDigitChars_ten_toDigits (n := n), hd, Nat.ofDigitChars_ten_toDigits]

private theorem slash_toList : "/".toList = ['/'] := rfl

/-- **Attributes have the same key** only when one is the other with the border between component
and attribute at another slash. -/
theorem toStrAttr_eq_iff {ref ref' : AttributeRef} :
    toStrAttr ref = toStrAttr ref' ↔ ref = ref' ∨ Shifted ref ref' ∨ Shifted ref' ref := by
  obtain ⟨e, c, a⟩ := ref
  obtain ⟨e', c', a'⟩ := ref'
  have hkey : toStrAttr ⟨e, c, a⟩ = toStrAttr ⟨e', c', a'⟩ ↔
      e = e' ∧ c.toList ++ '/' :: a.toList = c'.toList ++ '/' :: a'.toList := by
    simp only [toStrAttr, ← String.toList_inj, String.toList_append, slash_toList,
      List.append_assoc, List.singleton_append]
    constructor
    · intro h
      obtain ⟨he, hrest⟩ :=
        append_cons_inj (slash_notMem_toString _) (slash_notMem_toString _) h
      exact ⟨UInt32.toNat_inj.mp (toString_injective he), hrest⟩
    · rintro ⟨rfl, hrest⟩
      exact congrArg (fun l => (toString e.toNat).toList ++ '/' :: l) hrest
  have hsplit : ∀ {x y m : String}, x = y ++ "/" ++ m ↔ x.toList = y.toList ++ '/' :: m.toList := by
    intro x y m
    simp [← String.toList_inj, slash_toList]
  rw [hkey, append_cons_eq_iff]
  simp only [Shifted, AttributeRef.mk.injEq, hsplit, String.toList_inj]
  constructor
  · rintro ⟨rfl, ⟨rfl, rfl⟩ | ⟨t, hc, ha⟩ | ⟨t, hc, ha⟩⟩
    · exact .inl ⟨rfl, rfl, rfl⟩
    · exact .inr (.inl ⟨rfl, String.ofList t, by simpa using hc, by simpa using ha⟩)
    · exact .inr (.inr ⟨rfl, String.ofList t, by simpa using hc, by simpa using ha⟩)
  · rintro (⟨rfl, rfl, rfl⟩ | ⟨rfl, m, hc, ha⟩ | ⟨rfl, m, hc, ha⟩)
    · exact ⟨rfl, .inl ⟨rfl, rfl⟩⟩
    · exact ⟨rfl, .inr (.inl ⟨m.toList, hc, ha⟩)⟩
    · exact ⟨rfl, .inr (.inr ⟨m.toList, hc, ha⟩)⟩

/-- The attribute name of a shifted reference has a slash. -/
theorem Shifted.slash_mem {ref ref' : AttributeRef} (h : Shifted ref ref') :
    '/' ∈ ref.attributeName.toList := by
  obtain ⟨-, m, -, ha⟩ := h
  simp [ha, slash_toList]

/-- **Keys identify attributes** whose name has no slash, as it is with Python's identifiers. -/
theorem toStrAttr_injective {ref ref' : AttributeRef} (hr : '/' ∉ ref.attributeName.toList)
    (hr' : '/' ∉ ref'.attributeName.toList) (h : toStrAttr ref = toStrAttr ref') : ref = ref' := by
  rcases toStrAttr_eq_iff.mp h with heq | hshift | hshift
  · exact heq
  · exact absurd hshift.slash_mem hr
  · exact absurd hshift.slash_mem hr'

structure Recorder where
  inputs : OrderedDict String AttributeRef
  outputs : OrderedDict String Mutate
  deriving DecidableEq

namespace Recorder

/-- A recorder without records. -/
def empty : Recorder := ⟨∅, ∅⟩

/-- The node that an attribute stands for: what was written to it last, else its retrieve node. -/
def definition (outputs : OrderedDict String Mutate) (attrRef : AttributeRef) : Node :=
  match outputs.get? (toStrAttr attrRef) with
  | some setOp => setOp.toNode
  | none => .retrieve attrRef

/-- `get_attr` -/
def getAttr (attrRef : AttributeRef) (r : Recorder) : Node × Recorder :=
  match r.outputs.get? (toStrAttr attrRef) with
  | some setOp => (setOp.toNode, r)
  | none => (.retrieve attrRef, { r with inputs := r.inputs.insert (toStrAttr attrRef) attrRef })

/-- `set_attr`, given the node that the value is wrapped in. A value that retrieves the same
attribute is taken for a self assignment. -/
def setAttr (attrRef : AttributeRef) (value : Node) (r : Recorder) : Recorder :=
  if value = .retrieve attrRef then r
  else { r with
    outputs := (r.outputs.insert (toStrAttr attrRef) ⟨attrRef, value⟩).moveToEnd
      (toStrAttr attrRef) }

/-- An attribute read `component.attr`. -/
def read (attrRef : AttributeRef) : Fallible Recorder PythonError Object := fun r =>
  (.ok (.graphNode (r.getAttr attrRef).1), (r.getAttr attrRef).2)

/-- An attribute assignment `component.attr = value`, which wraps the value first. -/
def write (attrRef : AttributeRef) (value : Object) : Fallible Recorder PythonError Unit := fun r =>
  match value.wrap with
  | .ok node => (.ok (), r.setAttr attrRef node)
  | .error e => (.error e, r)

/-- `Plotter.graph` -/
def graph (r : Recorder) : Graph := ⟨r.inputs.values, r.outputs.values⟩

@[simp] theorem definition_empty (ref : AttributeRef) : definition ∅ ref = .retrieve ref := rfl

@[simp] theorem getAttr_fst (ref : AttributeRef) (r : Recorder) :
    (r.getAttr ref).1 = definition r.outputs ref := by
  rw [getAttr, definition]
  cases r.outputs.get? (toStrAttr ref) <;> rfl

@[simp] theorem outputs_getAttr (ref : AttributeRef) (r : Recorder) :
    (r.getAttr ref).2.outputs = r.outputs := by
  rw [getAttr]
  cases r.outputs.get? (toStrAttr ref) <;> rfl

@[simp] theorem inputs_setAttr (ref : AttributeRef) (n : Node) (r : Recorder) :
    (r.setAttr ref n).inputs = r.inputs := by
  rw [setAttr]
  split <;> rfl

theorem setAttr_self (ref : AttributeRef) (r : Recorder) : r.setAttr ref (.retrieve ref) = r :=
  if_pos rfl

/-- The entries after a write: those from before, and the new one. -/
theorem get?_setAttr {ref : AttributeRef} {n : Node} {r : Recorder} {key : String} {o : Mutate}
    (h : (r.setAttr ref n).outputs.get? key = some o) :
    r.outputs.get? key = some o ∨ key = toStrAttr ref ∧ o = ⟨ref, n⟩ := by
  rw [setAttr] at h
  split at h
  · exact .inl h
  · rw [OrderedDict.get?_moveToEnd, OrderedDict.get?_insert] at h
    split_ifs at h with hkey
    · exact .inr ⟨hkey, (Option.some.inj h).symm⟩
    · exact .inl h

theorem get?_setAttr_ne {ref : AttributeRef} {key : String} (hkey : key ≠ toStrAttr ref) (n : Node)
    (r : Recorder) : (r.setAttr ref n).outputs.get? key = r.outputs.get? key := by
  rw [setAttr]
  split
  · rfl
  · rw [OrderedDict.get?_moveToEnd, OrderedDict.get?_insert_ne _ hkey]

theorem restrict_setAttr {ref : AttributeRef} {p : String → Bool} (hp : p (toStrAttr ref) = false)
    (n : Node) (r : Recorder) : (r.setAttr ref n).outputs.restrict p = r.outputs.restrict p := by
  rw [setAttr]
  split
  · rfl
  · exact OrderedDict.restrict_moveToEnd_insert _ hp _

/-- Any other value becomes the definition of every attribute with the same key. -/
theorem definition_setAttr {ref : AttributeRef} {n : Node} (hn : n ≠ .retrieve ref)
    (r : Recorder) (ref' : AttributeRef) : definition (r.setAttr ref n).outputs ref' =
      if toStrAttr ref' = toStrAttr ref then n else definition r.outputs ref' := by
  simp only [definition, setAttr, if_neg hn, OrderedDict.get?_moveToEnd, OrderedDict.get?_insert]
  split_ifs <;> rfl

/-- The output of the attribute goes to the end. -/
theorem entries_setAttr {ref : AttributeRef} {n : Node} (hn : n ≠ .retrieve ref) (r : Recorder) :
    (r.setAttr ref n).outputs.entries =
      (r.outputs.erase (toStrAttr ref)).entries ++ [(toStrAttr ref, ⟨ref, n⟩)] := by
  rw [setAttr, if_neg hn]
  exact OrderedDict.entries_moveToEnd_insert r.outputs _ _

/-- The outputs after a write do not depend on the inputs. -/
theorem outputs_setAttr_congr {r r' : Recorder} (h : r.outputs = r'.outputs) (ref : AttributeRef)
    (n : Node) : (r.setAttr ref n).outputs = (r'.setAttr ref n).outputs := by
  rw [setAttr, setAttr]
  split <;> simp [h]

/-- What `set_attr` can have recorded: every output under its own key, and no attribute that
retrieves itself. The names of attributes have no slash. -/
def Recorded (outputs : OrderedDict String Mutate) : Prop :=
  ∀ key o, outputs.get? key = some o → key = toStrAttr o.mutateAttr ∧
    '/' ∉ o.mutateAttr.attributeName.toList ∧ o.toNode ≠ .retrieve o.mutateAttr

theorem recorded_empty : Recorded ∅ := by
  intro key o h
  cases h

theorem Recorded.setAttr {r : Recorder} (hr : Recorded r.outputs) {ref : AttributeRef}
    (href : '/' ∉ ref.attributeName.toList) (n : Node) : Recorded (r.setAttr ref n).outputs := by
  intro key o h
  by_cases hself : n = .retrieve ref
  · rw [hself, setAttr_self] at h
    exact hr key o h
  · rcases get?_setAttr h with hold | ⟨rfl, rfl⟩
    · exact hr key o hold
    · exact ⟨rfl, href, hself⟩

/-- An attribute reads as its retrieve node exactly when nothing is recorded for it. -/
theorem Recorded.definition_eq_retrieve_iff {outputs : OrderedDict String Mutate}
    (h : Recorded outputs) {ref : AttributeRef} (href : '/' ∉ ref.attributeName.toList) :
    definition outputs ref = .retrieve ref ↔ outputs.get? (toStrAttr ref) = none := by
  rw [definition]
  cases hget : outputs.get? (toStrAttr ref) with
  | none => simp
  | some o =>
    obtain ⟨hkey, hslash, hne⟩ := h _ o hget
    obtain rfl := toStrAttr_injective href hslash hkey
    simp [hne]

/-- While the outputs are `outputs`, reading gives the definition. -/
theorem read_computes (outputs : OrderedDict String Mutate) (ref : AttributeRef) :
    Fallible.Computes (fun r : Recorder => r.outputs = outputs) (read ref)
      (.ok (.graphNode (definition outputs ref))) := by
  rintro r rfl
  exact ⟨by simp [read], outputs_getAttr ref r⟩

end Recorder
end Bentobox.Sdk
