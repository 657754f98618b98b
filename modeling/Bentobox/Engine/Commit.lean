import Bentobox.Engine.Settling
import Bentobox.Engine.WriteBack

/-!
# Graphs that assign simultaneously

The outputs of a graph run one after another, and each reads what those before it have stored.
Where no output reads an attribute that another in front of it has stored, the graph is one
simultaneous assignment: all outputs are evaluated first, and then their values are stored
(`Stores.runGraph_iff_commit`).
-/
namespace Bentobox

namespace AttributeMap
variable {F : FloatOps} {m m' : AttributeMap} {final : AttributeRef → Option Value}
  {refs : List AttributeRef}

/-- Give the attributes their final values, each in its declared type. -/
def commit (F : FloatOps) (m : AttributeMap) (final : AttributeRef → Option Value) :
    List AttributeRef → Option AttributeMap
  | [] => some m
  | ref :: refs => do
    let w ← m.accepted F ref (final ref)
    (m.set ref w).commit F final refs

theorem accepted_set (m : AttributeMap) (ref : AttributeRef) (w : Value) (r : AttributeRef)
    (v : Option Value) : (m.set ref w).accepted F r v = m.accepted F r v := rfl

/-- What a commit stores, and that it changes nothing else. -/
theorem commit_eq_some_iff : m.commit F final refs = some m' ↔ m'.layout = m.layout ∧
    (∀ ref ∈ refs, ∃ w, m'.value ref = some w ∧ m.accepted F ref (final ref) = some w) ∧
      ∀ ref, ref ∉ refs → m'.value ref = m.value ref := by
  induction refs generalizing m with
  | nil =>
    simp only [commit, Option.some.injEq, List.not_mem_nil, not_false_iff, forall_const]
    constructor
    · rintro rfl
      exact ⟨rfl, fun _ h => h.elim, fun _ => rfl⟩
    · rintro ⟨hlayout, -, hvalue⟩
      exact ext hlayout.symm fun r => (hvalue r).symm
  | cons ref refs ih =>
    simp only [commit, Option.bind_eq_bind, Option.bind_eq_some_iff, ih, layout_set, accepted_set]
    constructor
    · rintro ⟨w, hw, hlayout, hrefs, hothers⟩
      refine ⟨hlayout, fun r hr => ?_, fun r hr => ?_⟩
      · by_cases hmem : r ∈ refs
        · exact hrefs r hmem
        · obtain rfl : r = ref := (List.mem_cons.mp hr).resolve_right hmem
          exact ⟨w, by rw [hothers r hmem, value_set_self], hw⟩
      · rw [List.mem_cons, not_or] at hr
        rw [hothers r hr.2, value_set_ne m hr.1]
    · rintro ⟨hlayout, hrefs, hothers⟩
      obtain ⟨w, hvalue, hw⟩ := hrefs ref List.mem_cons_self
      refine ⟨w, hw, hlayout, fun r hr => hrefs r (List.mem_cons_of_mem _ hr), fun r hr => ?_⟩
      by_cases hself : r = ref
      · rw [hself, hvalue, value_set_self]
      · rw [value_set_ne m hself]
        exact hothers r (by simp [hself, hr])

end AttributeMap

/-! ## Outputs that do not read each other -/

/-- No output draws random numbers, or reads an attribute that one in front of it stores. -/
structure Independent (os : List Mutate) : Prop where
  randomFree : ∀ o ∈ os, o.toNode.randomFree
  unread : os.Pairwise fun p o => p.mutateAttr ∉ o.toNode.retrieves

instance (os : List Mutate) : Decidable (Independent os) :=
  decidable_of_iff ((∀ o ∈ os, o.toNode.randomFree) ∧
    os.Pairwise fun p o => p.mutateAttr ∉ o.toNode.retrieves)
    ⟨fun h => ⟨h.1, h.2⟩, fun h => ⟨h.randomFree, h.unread⟩⟩

namespace AttributeMap
variable {F : FloatOps} {m₀ m : AttributeMap} {os : List Mutate}

theorem valuation_overlay {refs : List AttributeRef} {ref : AttributeRef} (h : ref ∉ refs) :
    (m₀.overlay m refs).valuation ref = m₀.valuation ref := by
  simp only [valuation, get, overlay, if_neg h]

/-- An output that reads nothing of what was stored stores what it would have stored before. -/
theorem stored_overlay {refs : List AttributeRef} {o : Mutate}
    (h : ∀ ref ∈ refs, ref ∉ o.toNode.retrieves) :
    (m₀.overlay m refs).stored F o = m₀.stored F o := by
  have hdenote : denote F (m₀.overlay m refs).valuation o.toNode = denote F m₀.valuation o.toNode :=
    denote_congr F fun r hr => valuation_overlay fun hmem => h r hmem hr
  rw [stored, hdenote]
  rfl

/-- **Independent outputs** settle where their values are committed. -/
theorem settled_iff_commit (hos : Independent os) {final : AttributeRef → Option Value}
    (hfinal : ∀ o ∈ os, denote F m₀.valuation o.toNode = final o.mutateAttr) :
    Settled F m₀ m os ↔ m₀.commit F final (os.map Mutate.mutateAttr) = some m := by
  have hstored : ∀ o ∈ os, m₀.stored F o = m₀.accepted F o.mutateAttr (final o.mutateAttr) :=
    fun o ho => by rw [stored, hfinal o ho]
  have hoverlay : ∀ pre o post, os = pre ++ o :: post →
      (m₀.overlay m (pre.map Mutate.mutateAttr)).stored F o =
        m₀.accepted F o.mutateAttr (final o.mutateAttr) := by
    rintro pre o post rfl
    rw [← hstored o (by simp)]
    refine stored_overlay fun ref hmem => ?_
    obtain ⟨p, hp, rfl⟩ := List.mem_map.mp hmem
    exact (List.pairwise_append.mp hos.unread).2.2 p hp o List.mem_cons_self
  rw [commit_eq_some_iff]
  constructor
  · intro h
    refine ⟨h.layout, fun ref href => ?_, h.others⟩
    obtain ⟨o, ho, rfl⟩ := List.mem_map.mp href
    obtain ⟨pre, post, heq⟩ := List.append_of_mem ho
    obtain ⟨w, hvalue, hw⟩ := h.stores pre o post heq
    exact ⟨w, hvalue, (hoverlay pre o post heq).symm.trans hw⟩
  · rintro ⟨hlayout, hrefs, hothers⟩
    refine ⟨hlayout, fun pre o post heq => ?_, hothers⟩
    obtain ⟨w, hvalue, hw⟩ := hrefs o.mutateAttr (List.mem_map_of_mem (by simp [heq]))
    exact ⟨w, hvalue, (hoverlay pre o post heq).trans hw⟩

end AttributeMap

/-- **A graph of independent outputs** at distinct attributes is a simultaneous assignment. -/
theorem Stores.runGraph_iff_commit {F : FloatOps} {g : Graph} (hg : Independent g.outputs)
    (hos : (g.outputs.map Mutate.mutateAttr).Nodup) {s : Env Stores} (hs : s.store.Wf)
    {final : AttributeRef → Option Value}
    (hfinal : ∀ o ∈ g.outputs, denote F s.store.view.valuation o.toNode = final o.mutateAttr)
    {m : AttributeMap} : (∃ s', runGraph F g s = (.ok (), s') ∧ s'.store.view = m) ↔
      s.store.view.commit F final (g.outputs.map Mutate.mutateAttr) = some m := by
  rw [runGraph_iff_settled hg.randomFree hos hs, AttributeMap.settled_iff_commit hg hfinal]

end Bentobox
