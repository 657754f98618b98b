import Mathlib.Data.Set.Function
import Bentobox.Sdk.SymbolicExecution

/-!
# Keys of attributes

A recorder looks attributes up by their references as text. Next to it stands a recorder that
looks them up by the references themselves. The two give the same answers and keep the same
expressions as long as no attribute is another one with its slash moved.
-/
namespace Bentobox.Sdk

/-- The attribute that a call is about. -/
def Call.attrRef : Call → AttributeRef
  | getAttr attrRef => attrRef
  | setAttr attrRef _ => attrRef

/-- A recorder that is keyed by references, with the nodes that it returned. -/
structure ByReference where
  outputs : AttributeRef → Option Node
  nodes : List Node

namespace ByReference

/-- Make a call; a self assignment is ignored. -/
def call (s : ByReference) : Call → Option ByReference
  | .getAttr ref => some { s with nodes := s.nodes ++ [(s.outputs ref).getD (.retrieve ref)] }
  | .setAttr ref e => (e.node s.nodes).map fun n =>
    if n = .retrieve ref then s
    else { s with outputs := fun ref' => if ref' = ref then some n else s.outputs ref' }

end ByReference

namespace Recording

def start : Recording := ⟨.empty, []⟩

/-- What is recorded for each attribute: the output under its key, if it is an output of this
attribute. -/
def byReference (s : Recording) : ByReference where
  outputs ref := ((s.recorder.outputs.get? (toStrAttr ref)).filter
    fun o => o.mutateAttr = ref).map Mutate.toNode
  nodes := s.nodes

end Recording

/-- Whatever is called on the attributes, the recorder answers and records as the one that is
keyed by references does. -/
def KeepsApart (attrs : Set AttributeRef) : Prop :=
  ∀ calls : List {c : Call // c.attrRef ∈ attrs},
    Machine.run (fun s c => (ByReference.call s c.1).map fun s => ((), s))
      Recording.start.byReference calls =
    (Machine.run (fun s c => (Recording.call s c.1).map fun s => ((), s))
      Recording.start calls).map fun r => (r.1, r.2.byReference)

theorem not_shifted_self (ref : AttributeRef) : ¬ Shifted ref ref := by
  rintro ⟨-, m, hc, -⟩
  have hlength := congrArg String.length hc
  simp only [String.length_append] at hlength
  have : "/".length = 1 := rfl
  omega

variable {attrs : Set AttributeRef}

theorem injOn_toStrAttr_iff :
    attrs.InjOn toStrAttr ↔ ∀ ref ∈ attrs, ∀ ref' ∈ attrs, ¬ Shifted ref ref' := by
  constructor
  · intro hinj ref hr ref' hr' hshift
    have heq := hinj hr hr' (toStrAttr_eq_iff.mpr (.inr (.inl hshift)))
    subst heq
    exact not_shifted_self ref hshift
  · intro hnone ref hr ref' hr' hkey
    rcases toStrAttr_eq_iff.mp hkey with heq | hshift | hshift
    · exact heq
    · exact absurd hshift (hnone ref hr ref' hr')
    · exact absurd hshift (hnone ref' hr' ref hr)

/-- Every output stands under its own key and is one of the attributes. -/
def Recording.Of (attrs : Set AttributeRef) (s : Recording) : Prop :=
  ∀ key o, s.recorder.outputs.get? key = some o →
    key = toStrAttr o.mutateAttr ∧ o.mutateAttr ∈ attrs

namespace Recording
variable {s s' : Recording} {c : Call}

/-- Calls on the attributes only record these attributes. -/
theorem Of.call (hs : s.Of attrs) (hc : c.attrRef ∈ attrs) (h : s.call c = some s') :
    s'.Of attrs := by
  cases c with
  | getAttr ref =>
    cases h
    intro key o hget
    rw [Recorder.outputs_getAttr] at hget
    exact hs key o hget
  | setAttr ref e =>
    obtain ⟨n, -, rfl⟩ := Option.map_eq_some_iff.mp h
    intro key o hget
    by_cases hself : n = .retrieve ref
    · rw [hself, Recorder.setAttr_self] at hget
      exact hs key o hget
    · rcases Recorder.get?_setAttr hget with hold | ⟨rfl, rfl⟩
      · exact hs key o hold
      · exact ⟨rfl, hc⟩

/-- Without collisions the recorder has for an attribute what it recorded for this attribute. -/
theorem Of.definition_eq (hinj : attrs.InjOn toStrAttr) (hs : s.Of attrs) {ref : AttributeRef}
    (hr : ref ∈ attrs) : Recorder.definition s.recorder.outputs ref =
      (s.byReference.outputs ref).getD (.retrieve ref) := by
  simp only [Recorder.definition, byReference]
  cases hget : s.recorder.outputs.get? (toStrAttr ref) with
  | none => rfl
  | some o =>
    obtain ⟨hkey, ho⟩ := hs _ o hget
    have heq : o.mutateAttr = ref := (hinj hr ho hkey).symm
    simp [Option.filter, heq]

/-- **One call** does the same on both. -/
theorem Of.byReference_call (hinj : attrs.InjOn toStrAttr) (hs : s.Of attrs)
    (hc : c.attrRef ∈ attrs) :
    s.byReference.call c = (s.call c).map byReference := by
  cases c with
  | getAttr ref =>
    have hdef := hs.definition_eq hinj (show ref ∈ attrs from hc)
    simp only [ByReference.call, Recording.call, Option.map_some, Recorder.getAttr_fst, hdef,
      Option.some.injEq]
    simp only [byReference, Recorder.outputs_getAttr]
  | setAttr ref e =>
    simp only [ByReference.call, Recording.call, Option.map_map]
    refine congrArg (fun f => (e.node s.nodes).map f) (funext fun n => ?_)
    simp only [Function.comp_apply]
    by_cases hself : n = .retrieve ref
    · rw [if_pos hself, hself, Recorder.setAttr_self]
    · rw [if_neg hself]
      simp only [byReference, Recorder.setAttr, if_neg hself, ByReference.mk.injEq, and_true]
      funext ref'
      rw [OrderedDict.get?_moveToEnd, OrderedDict.get?_insert]
      by_cases hr : ref' = ref
      · subst hr
        simp [Option.filter]
      · rw [if_neg hr]
        split
        next hkey =>
          -- an output of `ref'` itself would stand under the key of `ref`
          have hold : ∀ o, s.recorder.outputs.get? (toStrAttr ref') = some o →
              o.mutateAttr ≠ ref' := by
            rintro o hget rfl
            exact hr (hinj (hs _ o hget).2 hc hkey)
          have hnone : (s.recorder.outputs.get? (toStrAttr ref')).filter
              (fun o => o.mutateAttr = ref') = none := by
            simpa [Option.filter_eq_none_iff] using hold
          rw [hnone]
          simp [Option.filter, Ne.symm hr]
        next => rfl

end Recording

/-- **The recorder refines the one that is keyed by references** exactly when no attribute is
another one with its slash moved. -/
theorem keepsApart_iff :
    KeepsApart attrs ↔ ∀ ref ∈ attrs, ∀ ref' ∈ attrs, ¬ Shifted ref ref' := by
  constructor
  · intro h ref hr ref' hr' hshift
    have hne : ref' ≠ ref := by
      rintro rfl
      exact not_shifted_self _ hshift
    have hkey := toStrAttr_eq_iff.mpr (.inr (.inl hshift))
    -- what is written to `ref` is read from `ref'`
    have hrun := h [⟨.setAttr ref (.const (setVal (.bool true))), hr⟩, ⟨.getAttr ref', hr'⟩]
    have hself : Node.const (setVal (.bool true)) ≠ .retrieve ref := nofun
    have hnodes := congrArg (Option.map fun r => r.2.nodes) hrun
    simp [Machine.run, Recording.call, ByReference.call, Recording.start, Recording.byReference,
      Term.node, Recorder.definition_setAttr hself, hkey.symm, hne, Recorder.empty] at hnodes
  · intro hnone calls
    have hinj := injOn_toStrAttr_iff.mpr hnone
    refine Machine.run_view (P := Recording.Of attrs) (fun s c hs => ?_) (fun s c o s' hs h => ?_)
      (fun key o h => by cases h) calls
    · rw [hs.byReference_call hinj c.2, Option.map_map, Option.map_map]
      rfl
    · obtain ⟨s₁, hcall, heq⟩ := Option.map_eq_some_iff.mp h
      cases heq
      exact hs.call c.2 hcall

/-- **Keys identify attributes** exactly when none of the attributes is another one with its slash
moved. -/
theorem keysIdentify_iff (attrs : Set AttributeRef) :
    attrs.InjOn toStrAttr ∧ KeepsApart attrs ↔
      ∀ ref ∈ attrs, ∀ ref' ∈ attrs, ¬ Shifted ref ref' := by
  rw [injOn_toStrAttr_iff, keepsApart_iff, and_self]

/-- The component `a/b` with the attribute `c`, and the component `a` with the attribute `b/c`. -/
theorem keys_collide : toStrAttr ⟨1, "a/b", "c"⟩ = toStrAttr ⟨1, "a", "b/c"⟩ ∧
    ¬ Set.univ.InjOn toStrAttr ∧ ¬ KeepsApart Set.univ := by
  have hshift : Shifted ⟨1, "a", "b/c"⟩ ⟨1, "a/b", "c"⟩ := ⟨rfl, "b", rfl, rfl⟩
  refine ⟨rfl, ?_, ?_⟩
  · rw [injOn_toStrAttr_iff]
    exact fun h => h _ trivial _ trivial hshift
  · rw [keepsApart_iff]
    exact fun h => h _ trivial _ trivial hshift

end Bentobox.Sdk
