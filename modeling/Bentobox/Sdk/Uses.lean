import Bentobox.Lib.History
import Bentobox.Sdk.Recorder

/-!
# Inputs that are used

A graph should have no input that none of its outputs retrieves. The recorder notes an input as
soon as the attribute is read and does not ask what becomes of the value.
-/
namespace Bentobox.Sdk

/-- A read of an attribute, or a write of a node to it. -/
inductive AttributeCall
  | getAttr (attrRef : AttributeRef)
  | setAttr (attrRef : AttributeRef) (value : Node)
  deriving DecidableEq

namespace AttributeCall

/-- What the call records under the key; a self assignment is not recorded. -/
def written (key : String) : AttributeCall → Option Mutate
  | getAttr _ => none
  | setAttr ref value =>
    if value ≠ .retrieve ref ∧ toStrAttr ref = key then some ⟨ref, value⟩ else none

theorem written_eq_some_iff {key : String} {call : AttributeCall} {output : Mutate} :
    call.written key = some output ↔ call = .setAttr output.mutateAttr output.toNode ∧
      output.toNode ≠ .retrieve output.mutateAttr ∧ toStrAttr output.mutateAttr = key := by
  cases call with
  | getAttr ref => simp [written]
  | setAttr ref value =>
    obtain ⟨ref', value'⟩ := output
    rw [written, Option.ite_none_right_eq_some]
    constructor
    · rintro ⟨⟨hself, hkey⟩, ⟨⟩⟩
      exact ⟨rfl, hself, hkey⟩
    · rintro ⟨⟨⟩, hself, hkey⟩
      exact ⟨⟨hself, hkey⟩, rfl⟩

end AttributeCall

namespace Recorder

def call (r : Recorder) : AttributeCall → Recorder
  | .getAttr ref => (r.getAttr ref).2
  | .setAttr ref value => r.setAttr ref value

/-- A new recorder after the calls. -/
def recorded (calls : List AttributeCall) : Recorder := calls.foldl call empty

theorem recorded_concat (calls : List AttributeCall) (call : AttributeCall) :
    recorded (calls ++ [call]) = (recorded calls).call call := List.foldl_append

section
variable {calls : List AttributeCall} {c : AttributeCall} {ref : AttributeRef} {key : String}

/-- Nothing is recorded under the key. -/
def Unwritten (calls : List AttributeCall) (key : String) : Prop :=
  ∀ call ∈ calls, call.written key = none

/-- The attribute is read while nothing is recorded under its key, and this is the last such
read. -/
def ReadFirst (calls : List AttributeCall) (ref : AttributeRef) : Prop :=
  ∃ pre post, calls = pre ++ .getAttr ref :: post ∧ Unwritten pre (toStrAttr ref) ∧
    ∀ mid ref' rest, post = mid ++ .getAttr ref' :: rest → toStrAttr ref' = toStrAttr ref →
      ¬ Unwritten mid (toStrAttr ref)

/-- The node is written to the attribute, and nothing is recorded for the attribute after it. -/
def WrittenLast (calls : List AttributeCall) (ref : AttributeRef) (value : Node) : Prop :=
  ∃ pre post, calls = pre ++ .setAttr ref value :: post ∧ value ≠ .retrieve ref ∧
    Unwritten post (toStrAttr ref)

/-! ## Outputs -/

theorem get?_outputs_call (r : Recorder) (call : AttributeCall) (key : String) :
    (r.call call).outputs.get? key = ((call.written key).map some).getD (r.outputs.get? key) := by
  cases call with
  | getAttr ref => simp [Recorder.call, AttributeCall.written]
  | setAttr ref value =>
    simp only [Recorder.call, AttributeCall.written]
    by_cases hself : value = .retrieve ref
    · simp [hself, setAttr_self]
    · rw [setAttr, if_neg hself, OrderedDict.get?_moveToEnd, OrderedDict.get?_insert]
      by_cases hkey : toStrAttr ref = key
      · simp [hself, hkey]
      · simp [hkey, Ne.symm hkey]

/-- The outputs are what was written last under each key. -/
theorem get?_outputs (calls : List AttributeCall) (key : String) :
    (recorded calls).outputs.get? key =
      History.replay (fun call key => (AttributeCall.written key call).map some) key none
        calls := by
  induction calls using List.reverseRecOn with
  | nil => rfl
  | append_singleton calls call ih =>
    rw [recorded_concat, get?_outputs_call, ih, History.replay_append]
    rfl

theorem get?_outputs_eq_none_iff :
    (recorded calls).outputs.get? key = none ↔ Unwritten calls key := by
  induction calls using List.reverseRecOn with
  | nil =>
    constructor
    · rintro - c ⟨⟩
    · intro
      rfl
  | append_singleton calls c ih =>
    rw [recorded_concat, get?_outputs_call, Unwritten, List.forall_mem_append,
      List.forall_mem_singleton]
    cases hc : c.written key with
    | none =>
      simp only [Option.map_none, Option.getD_none, and_true]
      exact ih
    | some output => simp

theorem mem_outputs_iff {output : Mutate} : output ∈ (recorded calls).graph.outputs ↔
    WrittenLast calls output.mutateAttr output.toNode := by
  constructor
  · intro h
    obtain ⟨p, hp, rfl⟩ := List.mem_map.mp h
    have hget := OrderedDict.get?_eq_some_iff.mpr hp
    rw [get?_outputs, History.replay_none_eq_some_iff] at hget
    obtain ⟨pre, c, post, rfl, hc, hpost⟩ := hget
    obtain ⟨output, hout, heq⟩ := Option.map_eq_some_iff.mp hc
    cases heq
    obtain ⟨rfl, hself, hkey⟩ := AttributeCall.written_eq_some_iff.mp hout
    exact ⟨pre, post, rfl, hself, fun c hc => hkey ▸ Option.map_eq_none_iff.mp (hpost c hc)⟩
  · rintro ⟨pre, post, rfl, hself, hpost⟩
    have hget : (recorded (pre ++ .setAttr output.mutateAttr output.toNode :: post)).outputs.get?
        (toStrAttr output.mutateAttr) = some output := by
      rw [get?_outputs, History.replay_none_eq_some_iff]
      refine ⟨pre, _, post, rfl, ?_, fun c hc => by rw [hpost c hc]; rfl⟩
      rw [AttributeCall.written_eq_some_iff.mpr ⟨rfl, hself, rfl⟩]
      rfl
    exact List.mem_map_of_mem (OrderedDict.get?_eq_some_iff.mp hget)

/-! ## Inputs -/

/-- One more call is the first read itself, or another attribute with the key is not read first. -/
theorem readFirst_concat : ReadFirst (calls ++ [c]) ref ↔
    (c = .getAttr ref ∧ Unwritten calls (toStrAttr ref)) ∨
      ReadFirst calls ref ∧ ∀ ref', c = .getAttr ref' → toStrAttr ref' = toStrAttr ref →
        ¬ Unwritten calls (toStrAttr ref) := by
  constructor
  · rintro ⟨pre, post, heq, hpre, hpost⟩
    rcases List.eq_nil_or_concat' post with rfl | ⟨post, c', rfl⟩
    · obtain ⟨rfl, hc⟩ := List.append_inj' heq rfl
      exact .inl ⟨(List.cons.inj hc).1, hpre⟩
    · have heq' : calls ++ [c] = (pre ++ .getAttr ref :: post) ++ [c'] := by simp [heq]
      obtain ⟨rfl, hc⟩ := List.append_inj' heq' rfl
      obtain rfl := (List.cons.inj hc).1
      refine .inr ⟨⟨pre, post, rfl, hpre, fun mid ref' rest h => ?_⟩, ?_⟩
      · exact hpost mid ref' (rest ++ [c]) (by simp [h])
      · rintro ref' rfl hkey hun
        refine hpost post ref' [] rfl hkey fun c hc => hun c ?_
        exact List.mem_append_right _ (List.mem_cons_of_mem _ hc)
  · rintro (⟨rfl, hun⟩ | ⟨⟨pre, post, rfl, hpre, hpost⟩, hlast⟩)
    · exact ⟨calls, [], rfl, hun, fun mid ref' rest h => by simp at h⟩
    · refine ⟨pre, post ++ [c], by simp, hpre, fun mid ref' rest h hkey hun => ?_⟩
      rcases List.eq_nil_or_concat' rest with rfl | ⟨rest, c', rfl⟩
      · obtain ⟨rfl, hc⟩ := List.append_inj' h rfl
        refine hlast ref' (List.cons.inj hc).1 hkey fun c hc => ?_
        rcases List.mem_append.mp hc with hc | hc
        · exact hpre c hc
        · rcases List.mem_cons.mp hc with rfl | hc
          · rfl
          · exact hun c hc
      · have h' : post ++ [c] = (mid ++ .getAttr ref' :: rest) ++ [c'] := by simp [h]
        obtain ⟨rfl, -⟩ := List.append_inj' h' rfl
        exact hpost mid ref' rest rfl hkey hun

theorem get?_inputs_iff :
    (recorded calls).inputs.get? key = some ref ↔ toStrAttr ref = key ∧ ReadFirst calls ref := by
  induction calls using List.reverseRecOn with
  | nil =>
    constructor
    · intro h
      cases h
    · rintro ⟨-, pre, post, h, -⟩
      simp at h
  | append_singleton calls c ih =>
    rw [recorded_concat, readFirst_concat]
    cases c with
    | setAttr ref' value => simpa [Recorder.call] using ih
    | getAttr ref' =>
      have hnone := @get?_outputs_eq_none_iff calls (toStrAttr ref')
      rw [Recorder.call, getAttr]
      cases hget : (recorded calls).outputs.get? (toStrAttr ref') with
      | some output =>
        have hwritten : ¬ Unwritten calls (toStrAttr ref') := by simp [← hnone, hget]
        rw [ih]
        constructor
        · rintro ⟨hkey, hfirst⟩
          refine ⟨hkey, .inr ⟨hfirst, ?_⟩⟩
          rintro _ ⟨⟩ heq
          exact heq ▸ hwritten
        · rintro ⟨hkey, ⟨⟨⟩, hun⟩ | ⟨hfirst, -⟩⟩
          · exact absurd hun hwritten
          · exact ⟨hkey, hfirst⟩
      | none =>
        have hun := hnone.mp hget
        rw [OrderedDict.get?_insert]
        split
        next hkey =>
          constructor
          · rintro ⟨⟩
            exact ⟨hkey.symm, .inl ⟨rfl, hun⟩⟩
          · rintro ⟨hkey', ⟨⟨⟩, -⟩ | ⟨-, hlast⟩⟩
            · rfl
            · have heq : toStrAttr ref' = toStrAttr ref := hkey.symm.trans hkey'.symm
              exact absurd (heq ▸ hun) (hlast ref' rfl heq)
        next hkey =>
          rw [ih]
          constructor
          · rintro ⟨hkey', hfirst⟩
            refine ⟨hkey', .inr ⟨hfirst, ?_⟩⟩
            rintro _ ⟨⟩ heq
            exact absurd (hkey'.symm.trans heq.symm) hkey
          · rintro ⟨hkey', ⟨⟨⟩, -⟩ | ⟨hfirst, -⟩⟩
            · exact absurd hkey'.symm hkey
            · exact ⟨hkey', hfirst⟩

theorem mem_inputs_iff : ref ∈ (recorded calls).graph.inputs ↔ ReadFirst calls ref := by
  constructor
  · intro h
    obtain ⟨p, hp, rfl⟩ := List.mem_map.mp h
    exact (get?_inputs_iff.mp (OrderedDict.get?_eq_some_iff.mpr hp)).2
  · intro h
    have hget := get?_inputs_iff.mpr ⟨rfl, h⟩
    exact List.mem_map_of_mem (OrderedDict.get?_eq_some_iff.mp hget)

/-- **Declared inputs are all used** exactly when every attribute that is read before it is written
is retrieved in what is written last to some attribute. -/
theorem inputs_used_iff (calls : List AttributeCall) :
    (∀ ref ∈ (recorded calls).graph.inputs, ∃ output ∈ (recorded calls).graph.outputs,
      ref ∈ output.toNode.retrieves) ↔
    ∀ ref, ReadFirst calls ref →
      ∃ ref' value, WrittenLast calls ref' value ∧ ref ∈ value.retrieves := by
  simp only [mem_inputs_iff, mem_outputs_iff]
  constructor
  · intro h ref href
    obtain ⟨output, hout, hmem⟩ := h ref href
    exact ⟨_, _, hout, hmem⟩
  · intro h ref href
    obtain ⟨ref', value, hlast, hmem⟩ := h ref href
    exact ⟨⟨ref', value⟩, hlast, hmem⟩

end

/-- The value of an attribute is read and dropped. -/
theorem input_unused : ¬ ∀ ref ∈ (recorded [.getAttr ⟨1, "Position", "x"⟩]).graph.inputs,
    ∃ output ∈ (recorded [.getAttr ⟨1, "Position", "x"⟩]).graph.outputs,
      ref ∈ output.toNode.retrieves := by
  intro h
  obtain ⟨output, hout, -⟩ := h ⟨1, "Position", "x"⟩ (.head _)
  cases hout

end Recorder
end Bentobox.Sdk
