import Bentobox.Engine.Denotation
import Bentobox.Lib.Machine
import Bentobox.Sdk.Recorder

/-!
# Recording against direct execution

The same calls of `get_attr` and `set_attr` are made on a recorder and on a
valuation. The recorder is a symbolic executor when, after every call, the node it
has for an attribute has the attribute's current value in the initial valuation.
-/
namespace Bentobox.Sdk

/-- An expression over constants and the results of earlier `get_attr` calls. -/
inductive Term
  | const (heldValue : Value)
  | result (call : ℕ)
  | switch (condition onTrue onFalse : Term)
  | unary (op : UnaryOp) (x : Term)
  | binary (op : BinaryOp) (x y : Term)
  deriving DecidableEq

namespace Term

/-- The node of an expression over recorded nodes; there may be no such call. -/
def node (nodes : List Node) : Term → Option Node
  | const v => some (.const v)
  | result i => nodes[i]?
  | switch c t f => do
    let c ← c.node nodes
    let t ← t.node nodes
    let f ← f.node nodes
    pure (.switch c t f)
  | unary op x => do
    let x ← x.node nodes
    pure (.unary op x)
  | binary op x y => do
    let x ← x.node nodes
    let y ← y.node nodes
    pure (.binary op x y)

/-- The value of an expression over the values that were read. -/
def value (F : FloatOps) (values : List (Option Value)) : Term → Option Value
  | const v => some v
  | result i => (values[i]?).join
  | switch c t f => (c.value F values).bind fun v => select v (t.value F values) (f.value F values)
  | unary op x => (x.value F values).bind fun v => (unaryOp F op v).toOption
  | binary op x y =>
    (x.value F values).bind fun v => (y.value F values).bind fun w =>
      (binaryOp F op v w).toOption

/-- **Substitution**: an expression over nodes denotes the expression over their values. -/
theorem denote_node {F : FloatOps} {σ : Valuation} {nodes : List Node} {e : Term} {n : Node}
    (h : e.node nodes = some n) : denote F σ n = e.value F (nodes.map (denote F σ)) := by
  induction e generalizing n with
  | const v => cases h; rfl
  | result i =>
    have hi : nodes[i]? = some n := h
    simp [value, hi]
  | switch c t f hc ht hf =>
    simp only [node, Option.bind_eq_bind, Option.bind_eq_some_iff] at h
    obtain ⟨c', hc', t', ht', f', hf', hn⟩ := h
    cases hn
    simp only [denote, value, hc hc', ht ht', hf hf']
  | unary op x hx =>
    simp only [node, Option.bind_eq_bind, Option.bind_eq_some_iff] at h
    obtain ⟨x', hx', hn⟩ := h
    cases hn
    simp only [denote, value, hx hx']
  | binary op x y hx hy =>
    simp only [node, Option.bind_eq_bind, Option.bind_eq_some_iff] at h
    obtain ⟨x', hx', y', hy', hn⟩ := h
    cases hn
    simp only [denote, value, hx hx', hy hy']

end Term

inductive Call
  | getAttr (attrRef : AttributeRef)
  | setAttr (attrRef : AttributeRef) (value : Term)
  deriving DecidableEq

/-! ## The two executions -/

/-- A recorder with the nodes that it returned. -/
structure Recording where
  recorder : Recorder
  nodes : List Node

/-- Make a call on the recorder. -/
def Recording.call (s : Recording) : Call → Option Recording
  | .getAttr ref =>
    some ⟨(s.recorder.getAttr ref).2, s.nodes ++ [(s.recorder.getAttr ref).1]⟩
  | .setAttr ref e => (e.node s.nodes).map fun n => { s with recorder := s.recorder.setAttr ref n }

/-- A valuation with the values that were read from it. -/
structure Execution where
  store : Valuation
  values : List (Option Value)

/-- Make a call on the valuation. -/
def Execution.call (F : FloatOps) (s : Execution) : Call → Execution
  | .getAttr ref => { s with values := s.values ++ [s.store ref] }
  | .setAttr ref e => { s with store := s.store.set ref (e.value F s.values) }

/-- Both executions next to each other. -/
structure Session where
  recording : Recording
  execution : Execution

namespace Session

def start (σ : Valuation) : Session := ⟨⟨.empty, []⟩, ⟨σ, []⟩⟩

/-- Make a call on both sides. -/
def call (F : FloatOps) (s : Session) (c : Call) : Option (Unit × Session) :=
  (s.recording.call c).map fun r => ((), ⟨r, s.execution.call F c⟩)

variable (F : FloatOps) (σ : Valuation)

/-- What the recorder has for an attribute has the value of the attribute. -/
def Agree (s : Session) : Prop :=
  ∀ ref, denote F σ (Recorder.definition s.recording.recorder.outputs ref) = s.execution.store ref

/-- The condition on a call: a node written back to its own attribute finds it with its initial
value, and no other attribute of a different value shares the key of one that is written. -/
def Sound (s : Session) : Call → Prop
  | .getAttr _ => True
  | .setAttr ref e =>
    if e.node s.recording.nodes = some (.retrieve ref) then s.execution.store ref = σ ref
    else ∀ ref', ref' ≠ ref → toStrAttr ref' = toStrAttr ref →
      s.execution.store ref' = e.value F s.execution.values

/-- The nodes returned have the values that were read. -/
def ResultsAgree (s : Session) : Prop :=
  s.recording.nodes.map (denote F σ) = s.execution.values

variable {F σ}

/-- Reading keeps the agreement, and so do writes that meet the condition, but no others. -/
theorem agree_call_iff {s s' : Session} {c : Call} {u : Unit} (hres : s.ResultsAgree F σ)
    (h : s.Agree F σ) (hs : s.call F c = some (u, s')) : s'.Agree F σ ↔ s.Sound F σ c := by
  cases c with
  | getAttr ref =>
    cases hs
    refine iff_of_true (fun r => ?_) trivial
    rw [Recorder.outputs_getAttr]
    exact h r
  | setAttr ref e =>
    obtain ⟨r, hr, hs'⟩ := Option.map_eq_some_iff.mp hs
    obtain ⟨n, hn, rfl⟩ := Option.map_eq_some_iff.mp hr
    cases hs'
    have hval : denote F σ n = e.value F s.execution.values := hres ▸ Term.denote_node hn
    simp only [Sound, hn, Option.some.injEq]
    by_cases hself : n = .retrieve ref
    · subst hself
      simp only [if_true, Agree, Execution.call, Recorder.setAttr_self]
      constructor
      · intro hall
        have hnew := hall ref
        rw [Valuation.set_self, ← hval] at hnew
        exact (h ref).symm.trans hnew
      · intro hinit r
        by_cases hr : r = ref
        · subst hr
          rw [Valuation.set_self, ← hval, h r, hinit]
          rfl
        · rw [Valuation.set_ne _ hr, h r]
    · simp only [if_neg hself, Agree, Execution.call, Recorder.definition_setAttr hself]
      constructor
      · intro hall r hr hkey
        have hnew := hall r
        rw [if_pos hkey, Valuation.set_ne _ hr] at hnew
        rw [← hnew, hval]
      · intro hkeys r
        by_cases hr : r = ref
        · subst hr
          rw [if_pos rfl, Valuation.set_self, hval]
        · rw [Valuation.set_ne _ hr]
          split_ifs with hkey
          · rw [hval, hkeys r hr hkey]
          · exact h r

/-- A returned node has the value read, as long as the recorder agrees. -/
theorem resultsAgree_call {s s' : Session} {c : Call} {u : Unit} (hres : s.ResultsAgree F σ)
    (h : s.Agree F σ) (hs : s.call F c = some (u, s')) : s'.ResultsAgree F σ := by
  cases c with
  | getAttr ref =>
    cases hs
    simp only [ResultsAgree, Execution.call, List.map_append, List.map_cons, List.map_nil,
      Recorder.getAttr_fst, h ref]
    rw [← hres]
  | setAttr ref e =>
    obtain ⟨r, hr, hs'⟩ := Option.map_eq_some_iff.mp hs
    obtain ⟨n, -, rfl⟩ := Option.map_eq_some_iff.mp hr
    cases hs'
    exact hres

theorem agree_start (σ : Valuation) : (start σ).Agree F σ := fun _ => rfl

/-- **Symbolic execution.** Through a whole sequence of calls the recorder agrees with direct
execution exactly when every write meets its condition. -/
theorem agree_iff_sound {calls : List Call} {us : List Unit} {s : Session}
    (hrun : Machine.run (call F) (start σ) calls = some (us, s)) :
    (∀ pre post us' t, calls = pre ++ post →
      Machine.run (call F) (start σ) pre = some (us', t) → t.Agree F σ) ↔
    Machine.Along (call F) (Sound F σ) (start σ) calls :=
  Machine.forall_prefix_iff_along (D := fun _ _ => True) (I := ResultsAgree F σ)
    (fun _ _ _ _ hres h _ hs => agree_call_iff hres h hs)
    (fun _ _ _ _ hres h _ _ hs => resultsAgree_call hres h hs) rfl (agree_start σ)
    (Machine.along_of_forall (fun _ _ => trivial) _ _) hrun

/-- `y` is the only attribute that is not set. -/
def unset : Valuation := fun ref => some (setVal (.bool (decide (ref ≠ ⟨1, "C", "y"⟩))))

/-- Copying `x` to `y` sets `y`. -/
theorem agree_iff_sound_copy : ∃ s,
    Machine.run (call default) (start unset)
      [.getAttr ⟨1, "C", "x"⟩, .setAttr ⟨1, "C", "y"⟩ (.result 0)] = some ([(), ()], s) ∧
    unset ⟨1, "C", "y"⟩ = some (setVal (.bool false)) ∧
    s.execution.store ⟨1, "C", "y"⟩ = some (setVal (.bool true)) ∧
    ∀ pre post us t,
      [Call.getAttr ⟨1, "C", "x"⟩, .setAttr ⟨1, "C", "y"⟩ (.result 0)] = pre ++ post →
      Machine.run (call default) (start unset) pre = some (us, t) → t.Agree default unset := by
  refine ⟨_, rfl, rfl, rfl, (agree_iff_sound rfl).mpr ⟨trivial, ?_⟩⟩
  rintro o s' ⟨⟩
  refine ⟨?_, fun _ _ _ => trivial⟩
  rw [Sound, if_neg (by decide)]
  intro ref' hne _
  change unset ref' = some (setVal (.bool true))
  rw [unset, decide_eq_true hne]

/-- A value that was read before its attribute was overwritten is not written back. -/
theorem write_back_dropped : ¬ ∀ (F : FloatOps) (σ : Valuation) (calls : List Call)
    (us : List Unit) (s : Session), Machine.run (call F) (start σ) calls = some (us, s) →
      s.Agree F σ := by
  intro h
  have hx := h default (fun _ => some (setVal (.bool false))) [.getAttr ⟨1, "C", "x"⟩,
    .setAttr ⟨1, "C", "x"⟩ (.const (setVal (.bool true))), .setAttr ⟨1, "C", "x"⟩ (.result 0)]
    _ _ rfl ⟨1, "C", "x"⟩
  cases hx

end Session
end Bentobox.Sdk
