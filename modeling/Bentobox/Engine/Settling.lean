import Bentobox.Engine.Denotation
import Mathlib.Data.List.Induction

/-!
# Running outputs towards a given store

When a list of outputs ends in a given store, every output has stored its final
value, and it did so while the outputs before it already had theirs and all other
attributes still had their initial ones. For outputs at distinct attributes this is
also enough (`runGraph_iff_settled`), so the store a graph ends in can be checked one
output at a time.
-/
namespace Bentobox

namespace AttributeMap

variable (F : FloatOps)

/-- The value that an attribute has after a value was written to it. -/
def accepted (m : AttributeMap) (ref : AttributeRef) (v : Option Value) : Option Value :=
  v.bind fun v => (m.converted F ref v).toOption

/-- The value that an output stores. -/
def stored (m : AttributeMap) (o : Mutate) : Option Value :=
  m.accepted F o.mutateAttr (denote F m.valuation o.toNode)

/-- Some attributes with their values in `m`, the others with those in `m₀`. -/
def overlay (m₀ m : AttributeMap) (refs : List AttributeRef) : AttributeMap :=
  ⟨m₀.layout, fun r => if r ∈ refs then m.value r else m₀.value r⟩

/-- `m` with one attribute back at its value in `m₀`. -/
def reset (m₀ m : AttributeMap) (ref : AttributeRef) : AttributeMap :=
  ⟨m.layout, fun r => if r = ref then m₀.value r else m.value r⟩

/-- Each output stores its value in `m` when those before it have theirs, and there is nothing
else in which `m` differs from `m₀`. -/
structure Settled (m₀ m : AttributeMap) (os : List Mutate) : Prop where
  layout : m.layout = m₀.layout
  stores : ∀ pre o post, os = pre ++ o :: post → ∃ w, m.value o.mutateAttr = some w ∧
    (m₀.overlay m (pre.map Mutate.mutateAttr)).stored F o = some w
  others : ∀ ref, ref ∉ os.map Mutate.mutateAttr → m.value ref = m₀.value ref

variable {F}

@[ext] theorem ext {m m' : AttributeMap} (hl : m.layout = m'.layout)
    (hv : ∀ r, m.value r = m'.value r) : m = m' := by
  cases m
  cases m'
  obtain rfl := hl
  obtain rfl := funext hv
  rfl

theorem set_eq_self {m : AttributeMap} {ref : AttributeRef} {w : Value}
    (h : m.value ref = some w) : m.set ref w = m := by
  refine ext rfl fun r => ?_
  by_cases hr : r = ref
  · subst hr
    rw [value_set_self, h]
  · exact value_set_ne m hr w

theorem reset_set (m₀ m : AttributeMap) (ref : AttributeRef) (w : Value) :
    m₀.reset (m.set ref w) ref = m₀.reset m ref := by
  refine ext rfl fun r => ?_
  by_cases hr : r = ref
  · simp only [reset, if_pos hr]
  · simp only [reset, if_neg hr, value_set_ne m hr w]

theorem set_reset (m₀ m : AttributeMap) {ref : AttributeRef} {w : Value}
    (h : m.value ref = some w) : (m₀.reset m ref).set ref w = m := by
  refine ext rfl fun r => ?_
  by_cases hr : r = ref
  · subst hr
    rw [value_set_self, h]
  · rw [value_set_ne _ hr]
    simp only [reset, if_neg hr]

/-- Attributes that are not among those of the overlay may change in `m`. -/
theorem overlay_congr {m₀ m m' : AttributeMap} {refs : List AttributeRef}
    (h : ∀ r ∈ refs, m.value r = m'.value r) : m₀.overlay m refs = m₀.overlay m' refs := by
  refine ext rfl fun r => ?_
  by_cases hr : r ∈ refs
  · simp only [overlay, if_pos hr, h r hr]
  · simp only [overlay, if_neg hr]

theorem value_reset_of_mem {m₀ m : AttributeMap} {refs : List AttributeRef} {ref : AttributeRef}
    (h : ref ∉ refs) : ∀ r ∈ refs, (m₀.reset m ref).value r = m.value r := fun r hr =>
  if_neg fun (he : r = ref) => h (he ▸ hr)

/-! ## One output at a time -/

theorem Settled.nil_iff {m₀ m : AttributeMap} : Settled F m₀ m [] ↔ m = m₀ := by
  constructor
  · exact fun h => ext h.layout fun r => h.others r (by simp)
  · rintro rfl
    exact ⟨rfl, fun pre o post h => by simp at h, fun _ _ => rfl⟩

/-- Where all outputs have run, the overlay is the final store. -/
theorem Settled.overlay_eq {m₀ m : AttributeMap} {os : List Mutate} (h : Settled F m₀ m os) :
    m₀.overlay m (os.map Mutate.mutateAttr) = m := by
  refine ext h.layout.symm fun r => ?_
  by_cases hr : r ∈ os.map Mutate.mutateAttr
  · simp only [overlay, if_pos hr]
  · simp only [overlay, if_neg hr, h.others r hr]

/-- The last output of a list. -/
theorem Settled.append_singleton_iff {m₀ m : AttributeMap} {os : List Mutate} {o : Mutate}
    (ho : o.mutateAttr ∉ os.map Mutate.mutateAttr) :
    Settled F m₀ m (os ++ [o]) ↔ Settled F m₀ (m₀.reset m o.mutateAttr) os ∧
      ∃ w, m.value o.mutateAttr = some w ∧ (m₀.reset m o.mutateAttr).stored F o = some w := by
  have hprefix : ∀ pre o' post, os = pre ++ o' :: post →
      (m₀.reset m o.mutateAttr).value o'.mutateAttr = m.value o'.mutateAttr ∧
      m₀.overlay (m₀.reset m o.mutateAttr) (pre.map Mutate.mutateAttr) =
        m₀.overlay m (pre.map Mutate.mutateAttr) := by
    rintro pre o' post rfl
    have hsame : ∀ r ∈ (pre ++ o' :: post).map Mutate.mutateAttr,
        (m₀.reset m o.mutateAttr).value r = m.value r := value_reset_of_mem ho
    exact ⟨hsame _ (by simp), overlay_congr fun r hr => hsame r (by
      rw [List.map_append]
      exact List.mem_append_left _ hr)⟩
  constructor
  · intro h
    have hreset : Settled F m₀ (m₀.reset m o.mutateAttr) os := by
      refine ⟨h.layout, fun pre o' post hos => ?_, fun ref hr => ?_⟩
      · obtain ⟨hval, hover⟩ := hprefix pre o' post hos
        rw [hval, hover]
        exact h.stores pre o' (post ++ [o]) (by simp [hos])
      · by_cases he : ref = o.mutateAttr
        · exact if_pos he
        · exact (if_neg he).trans (h.others ref (by simpa [he] using hr))
    have hlast := h.stores os o [] rfl
    rw [← overlay_congr (value_reset_of_mem ho), hreset.overlay_eq] at hlast
    exact ⟨hreset, hlast⟩
  · rintro ⟨h, w, hw, hst⟩
    refine ⟨h.layout, fun pre o' post hos => ?_, fun ref hr => ?_⟩
    · rcases List.eq_nil_or_concat post with rfl | ⟨post', last, rfl⟩
      · obtain ⟨rfl, heq⟩ := List.append_inj' hos rfl
        cases heq
        rw [← overlay_congr (value_reset_of_mem ho), h.overlay_eq]
        exact ⟨w, hw, hst⟩
      · rw [List.concat_eq_append, ← List.cons_append, ← List.append_assoc] at hos
        obtain ⟨hos, -⟩ := List.append_inj' hos rfl
        obtain ⟨hval, hover⟩ := hprefix pre o' post' hos
        rw [← hval, ← hover]
        exact h.stores pre o' post' hos
    · have hr' : ref ∉ os.map Mutate.mutateAttr ∧ ref ≠ o.mutateAttr := by simpa using hr
      exact (if_neg hr'.2).symm.trans (h.others ref hr'.1)

/-- What an output without random operations does to a map. -/
theorem mutateOp_iff_stored {o : Mutate} (ho : o.toNode.randomFree) {m m' : AttributeMap}
    {gen : ℕ} : (∃ gen', mutateOp F o ⟨m, gen⟩ = (.ok (), ⟨m', gen'⟩)) ↔
      ∃ w, m.stored F o = some w ∧ m' = m.set o.mutateAttr w := by
  have hden := evaluateNode_denote F ho ⟨m, gen⟩
  simp only [mutateOp_eq_ok_iff, stored, accepted, ← hden]
  constructor
  · rintro ⟨gen', v, w, gen₁, hv, hw, heq⟩
    cases heq
    exact ⟨w, by rw [hv]; simpa [Except.toOption] using congrArg Except.toOption hw, rfl⟩
  · rintro ⟨w, hst, rfl⟩
    obtain ⟨v, hv, hw⟩ := Option.bind_eq_some_iff.mp hst
    have hstore := evaluateNode_store F o.toNode ⟨m, gen⟩
    rcases hev : evaluateNode F o.toNode (⟨m, gen⟩ : Env AttributeMap) with ⟨e | v', ⟨t, gen'⟩⟩
    · rw [hev] at hv; cases hv
    · rw [hev] at hv hstore
      cases hv
      cases hstore
      refine ⟨gen', v, w, gen', rfl, ?_, rfl⟩
      cases hc : m.converted F o.mutateAttr v with
      | error e => rw [hc] at hw; cases hw
      | ok w' => rw [hc] at hw; cases hw; rfl

/-- **A list of outputs ends in a store** exactly when they settle there one by one. -/
theorem forEach_mutateOp_iff_settled {os : List Mutate} (hfree : ∀ o ∈ os, o.toNode.randomFree)
    (hos : (os.map Mutate.mutateAttr).Nodup) {m₀ m : AttributeMap} {gen : ℕ} :
    (∃ gen', Fallible.forEach (mutateOp F) os ⟨m₀, gen⟩ = (.ok (), ⟨m, gen'⟩)) ↔
      Settled F m₀ m os := by
  induction os using List.reverseRecOn generalizing m with
  | nil =>
    rw [Settled.nil_iff]
    exact ⟨fun ⟨_, h⟩ => by cases h; rfl, fun h => ⟨gen, h ▸ rfl⟩⟩
  | append_singleton os o ih =>
    rw [List.map_append, List.nodup_append] at hos
    have ho : o.mutateAttr ∉ os.map Mutate.mutateAttr := fun hm =>
      hos.2.2 _ hm _ (by simp) rfl
    have hfree' : ∀ o' ∈ os, o'.toNode.randomFree := fun o' h => hfree o' (by simp [h])
    have hlast := fun m' gen' => @mutateOp_iff_stored F o (hfree o (by simp)) m' m gen'
    rw [Settled.append_singleton_iff ho, ← ih hfree' hos.1]
    simp only [Fallible.forEach_append_eq_ok_iff, Fallible.forEach_singleton]
    constructor
    · rintro ⟨gen', ⟨m', gen₁⟩, hrun, hmut⟩
      obtain ⟨w, hst, rfl⟩ := (hlast m' gen₁).mp ⟨gen', hmut⟩
      have hm' : m₀.reset (m'.set o.mutateAttr w) o.mutateAttr = m' := by
        have hsettled := (ih hfree' hos.1).mp ⟨gen₁, hrun⟩
        rw [reset_set]
        refine ext rfl fun r => ?_
        by_cases hr : r = o.mutateAttr
        · subst hr
          exact (if_pos rfl).trans (hsettled.others _ ho).symm
        · exact if_neg hr
      rw [hm']
      exact ⟨⟨gen₁, hrun⟩, w, value_set_self m' _ w, hst⟩
    · rintro ⟨⟨gen₁, hrun⟩, w, hw, hst⟩
      obtain ⟨gen', hmut⟩ := (hlast (m₀.reset m o.mutateAttr) gen₁).mpr
        ⟨w, hst, (set_reset m₀ m hw).symm⟩
      exact ⟨gen', _, hrun, hmut⟩

end AttributeMap

/-- **A graph ends in a store** exactly when its outputs settle there one by one. -/
theorem Stores.runGraph_iff_settled {F : FloatOps} {g : Graph}
    (hfree : ∀ o ∈ g.outputs, o.toNode.randomFree)
    (hos : (g.outputs.map Mutate.mutateAttr).Nodup) {s : Env Stores} (hs : s.store.Wf)
    {m : AttributeMap} : (∃ s', runGraph F g s = (.ok (), s') ∧ s'.store.view = m) ↔
      AttributeMap.Settled F s.store.view m g.outputs := by
  have hrun : Fallible.forEach (mutateOp F) g.outputs (⟨s.store.view, s.gen⟩ : Env AttributeMap) =
      ((runGraph F g s).1, Env.map view (runGraph F g s).2) :=
    (runGraph_refines F stores_refine_map g).eq (s := s) hs
  rw [← @AttributeMap.forEach_mutateOp_iff_settled F g.outputs hfree hos _ _ s.gen, hrun]
  constructor
  · rintro ⟨s', h, rfl⟩
    exact ⟨s'.gen, by rw [h]; rfl⟩
  · rintro ⟨gen', h⟩
    obtain ⟨hok, hmap'⟩ := Prod.ext_iff.mp h
    exact ⟨_, Prod.ext hok rfl, congrArg Env.store hmap'⟩

end Bentobox
