import Bentobox.Engine.Concurrency

/-!
# When interleaved requests are served one after another

Two requests that name one simulation end as in one of the two serial orders when their
conflicting steps all come in that order; then no handler comes to a simulation that is
gone. Two `SetAttribute` requests always do. Two `StepSimulation` requests need not: both
may read an attribute before either stores it, and one update is lost.
-/
namespace Bentobox

open AttributeStore SimulationStore Interleaving

namespace Handler
variable {F : FloatOps} {name : String}

/-- The handler has not come to a simulation that is absent. -/
def Safe (h : Handler) : Prop := h ≠ .dangling ∧ h ≠ .done none

theorem Sound.safe {S : Type} {h : Handler} {s : Shared S} (hs : Sound name h s) : h.Safe := by
  constructor
  · rintro rfl; exact hs
  · rintro rfl; cases hs

/-! ## Two `SetAttribute` requests -/

/-- Where the handler of `SetAttribute` can be. -/
def Setting : Handler → Prop
  | setContains _ _ | setAt _ _ _ | done _ | dangling => True
  | evaluateOutput job | storeOutput job _ =>
    job.later = [] ∧ job.applied = false ∧ ∃ v, job.output.1.toNode = .const v
  | _ => False

/-- The next step stores a value. -/
def stores : Handler → Bool
  | storeOutput _ _ => true
  | _ => false

section
variable {S : Type} [SimulationStore S]

theorem setting_caught {α : Type} {message : String} {next : α → Handler}
    (hnext : ∀ a, (next a).Setting) {r : Except Fault α} {h : Handler}
    (hr : caught message next r = some h) : h.Setting := by
  unfold caught at hr
  split at hr <;> cases hr
  · exact hnext _
  · trivial

theorem Setting.advance {a a' : Handler} (ha : a.Setting) {s s' : Shared S}
    (h : advance F name a s = some (a', s')) : a'.Setting := by
  cases a with
  | setContains attr value =>
    cases h
    split_ifs <;> trivial
  | setAt attr value refs =>
    simp only [Handler.advance] at h
    split at h <;> cases h
    · trivial
    · split_ifs
      · trivial
      · exact ⟨rfl, rfl, value, rfl⟩
  | evaluateOutput job =>
    simp only [Handler.advance] at h
    split at h
    · cases h; trivial
    · obtain ⟨a'', hc, heq⟩ := Option.map_eq_some_iff.mp h
      cases heq
      have hnext : ∀ v, (Handler.storeOutput job v).Setting := fun _ => ha
      exact setting_caught hnext hc
  | storeOutput job val =>
    simp only [Handler.advance] at h
    split at h
    · cases h; trivial
    · obtain ⟨a'', hc, heq⟩ := Option.map_eq_some_iff.mp h
      cases heq
      refine setting_caught (fun _ => ?_) hc
      rw [ha.1, ha.2.1]
      trivial
  | done reply => cases h; trivial
  | dangling => cases h; trivial
  | _ => exact absurd ha id

/-- A handler of `SetAttribute` that has stored is at its end. -/
theorem ended_of_stores {a a' : Handler} (ha : a.Setting) (hst : a.stores = true)
    {s s' : Shared S} (h : Handler.advance F name a s = some (a', s')) : a'.ended = true := by
  cases a with
  | storeOutput job val =>
    simp only [Handler.advance] at h
    split at h
    · cases h; rfl
    · obtain ⟨a'', hc, heq⟩ := Option.map_eq_some_iff.mp h
      cases heq
      rw [ha.1, ha.2.1] at hc
      unfold caught at hc
      split at hc <;> cases hc <;> rfl
  | _ => cases hst

end

/-- Only two stores conflict. -/
theorem Setting.independent {a b : Handler} (ha : a.Setting) (hb : b.Setting)
    (hst : a.stores = false) : Independent a b := by
  have hread : ∀ x ∈ a.accesses, x = .readSims := by
    cases a with
    | setContains attr value | setAt attr value refs => simp [accesses]
    | evaluateOutput job =>
      obtain ⟨-, -, v, hv⟩ := ha
      simp [accesses, hv, Node.retrieves, Node.randomFree]
    | storeOutput job val => cases hst
    | done reply | dangling => simp [accesses]
    | _ => exact absurd ha id
  intro x hx y hy
  rw [hread x hx]
  cases b with
  | setContains attr value | setAt attr value refs =>
    rw [List.mem_singleton.mp hy]; rfl
  | evaluateOutput job =>
    obtain ⟨-, -, v, hv⟩ := hb
    simp only [accesses, hv, Node.retrieves, Node.randomFree, List.map_nil, if_true,
      List.append_nil, List.mem_singleton] at hy
    rw [hy]; rfl
  | storeOutput job val =>
    rcases List.mem_cons.mp hy with rfl | hy
    · rfl
    · rw [List.mem_singleton.mp hy]; rfl
  | done reply | dangling => cases hy
  | _ => exact absurd hb id

/-- A thread at its end is first in every conflict. -/
theorem first_of_ended {S : Type} [SimulationStore S] {side : Side} {schedule : List Side}
    {t t' : Threads Handler (Shared S)} {trace : List (Side × Handler)}
    (h : interleave (Handler.advance F name) schedule t = some (trace, t'))
    (hleft : side = .left → t.left.ended = true) (hright : side = .right → t.right.ended = true) :
    First Independent side trace := by
  have hall := locals_of_invariant (P := fun side' a => side = side' → a.ended = true)
    (fun _ a s a' s' ha hstep hside => by
      rw [advance_ended (ha hside)] at hstep
      cases hstep
      exact ha hside) h hleft hright
  refine List.pairwise_iff_forall_sublist.mpr fun {x y} hsub hx hy => ?_
  intro z hz w hw
  rw [accesses_of_ended (hall y (hsub.subset (by simp)) hy.symm)] at hw
  cases hw

/-- **Two `SetAttribute` requests** conflict in their stores only, so one of them is first. -/
theorem first_of_setting {S : Type} [SimulationStore S] {schedule : List Side}
    {t t' : Threads Handler (Shared S)} {trace : List (Side × Handler)}
    (h : interleave (Handler.advance F name) schedule t = some (trace, t'))
    (hl : t.left.Setting) (hr : t.right.Setting) :
    First Independent .left trace ∨ First Independent .right trace := by
  have hsetting : ∀ {schedule : List Side} {t : Threads Handler (Shared S)}
      {trace : List (Side × Handler)},
      interleave (Handler.advance F name) schedule t = some (trace, t') → t.left.Setting →
      t.right.Setting → ∀ x ∈ trace, x.2.Setting := fun h hl hr =>
    locals_of_invariant (P := fun _ a => a.Setting) (fun _ _ _ _ _ ha hstep => ha.advance hstep)
      h hl hr
  induction schedule generalizing t trace with
  | nil => cases h; exact .inl .nil
  | cons side schedule ih =>
    cases side with
    | left =>
      obtain ⟨a, s, rest, hstep, hrest, rfl⟩ := interleave_left_eq_some_iff.mp h
      cases hst : t.left.stores with
      | true =>
        have hfirst : First Independent .left rest :=
          first_of_ended hrest (fun _ => ended_of_stores hl hst hstep) (fun h => by cases h)
        exact .inl (List.pairwise_cons.mpr ⟨fun y _ hx => (by cases hx), hfirst⟩)
      | false =>
        have hind : ∀ y ∈ rest, Independent t.left y.2 := fun y hy =>
          hl.independent (hsetting hrest (hl.advance hstep) hr y hy) hst
        rcases ih hrest (hl.advance hstep) hr with hfirst | hfirst
        · exact .inl (List.pairwise_cons.mpr ⟨fun y hy _ _ => hind y hy, hfirst⟩)
        · exact .inr (List.pairwise_cons.mpr ⟨fun y hy _ _ => hind y hy, hfirst⟩)
    | right =>
      obtain ⟨b, s, rest, hstep, hrest, rfl⟩ := interleave_right_eq_some_iff.mp h
      cases hst : t.right.stores with
      | true =>
        have hfirst : First Independent .right rest := first_of_ended hrest (fun h => by cases h)
          (fun _ => ended_of_stores hr hst hstep)
        exact .inr (List.pairwise_cons.mpr ⟨fun y _ hx => (by cases hx), hfirst⟩)
      | false =>
        have hind : ∀ y ∈ rest, Independent t.right y.2 := fun y hy =>
          hr.independent (hsetting hrest hl (hr.advance hstep) y hy) hst
        rcases ih hrest hl (hr.advance hstep) with hfirst | hfirst
        · exact .inl (List.pairwise_cons.mpr ⟨fun y hy _ _ => hind y hy, hfirst⟩)
        · exact .inr (List.pairwise_cons.mpr ⟨fun y hy _ _ => hind y hy, hfirst⟩)

end Handler

/-! ## Serial orders -/

/-- The reply of a handler that has replied. -/
def Handler.replied : Handler → Option Response
  | done reply => reply
  | _ => none

theorem Handler.replied_eq_some_iff {h : Handler} {o : Response} :
    h.replied = some o ↔ h = .done (some o) := by
  cases h <;> simp [replied]

def Request.isSetAttribute : Request → Bool
  | setAttribute _ _ _ => true
  | _ => false

theorem Handler.setting_of_isSetAttribute {r : Request} (hr : r.isSetAttribute = true)
    {h : Handler} (hh : r.handler = some h) : h.Setting := by
  cases r with
  | setAttribute name attr value => cases hh; trivial
  | _ => cases hr

namespace Engine
variable {F : FloatOps} {name : String}

/-- What the requests one after the other reply, and the engine they leave. -/
def Serial (F : FloatOps) (e : Engine Stores) (r₁ r₂ : Request) (o₁ o₂ : Response)
    (e' : Engine Stores) : Prop :=
  ∃ e₁ e₂, step F e r₁ = some (o₁, e₁) ∧ step F e₁ r₂ = some (o₂, e₂) ∧ e₂.view = e'.view

/-- The serial order in which the left thread is first. -/
theorem serial_of_first {r₁ r₂ : Request} {t t' : Threads Handler (Shared AttributeMap)}
    (hl : r₁.handler = some t.left) (hr : r₂.handler = some t.right)
    (hn₁ : r₁.names name = true) (hn₂ : r₂.names name = true) {schedule : List Side}
    {trace : List (Side × Handler)}
    (hrun : interleave (Handler.advance F name) schedule t = some (trace, t'))
    (hfirst : First Handler.Independent .left trace) :
    t'.left.Safe ∧ t'.right.Safe ∧
      ∀ o₁ o₂, t'.left = .done (some o₁) → t'.right = .done (some o₂) →
        ∃ m, step F t.shared.engine r₁ = some (o₁, m) ∧
          step F m r₂ = some (o₂, t'.shared.engine) := by
  obtain ⟨s, hleft, hright⟩ := serial_of_first_left Handler.advance_commutes hrun hfirst
  obtain ⟨hsound₁, hdone₁⟩ := Handler.alone_spec hl hn₁ hleft
  obtain ⟨hsound₂, hdone₂⟩ := Handler.alone_spec hr hn₂ hright
  exact ⟨hsound₁.safe, hsound₂.safe, fun o₁ o₂ h₁ h₂ => ⟨s.engine, hdone₁ o₁ h₁, hdone₂ o₂ h₂⟩⟩

/-- **Interleaved requests** on one simulation. When the first request is first in every conflict,
no handler comes to a simulation that is absent, and when both have replied, the replies and the
engine are those of serving the first request before the second; when the second one is first in
every conflict, those of the other order. Of two `SetAttribute` requests one always is. -/
theorem interleaved_serial {e : Engine Stores} (he : e.Reachable F) {r₁ r₂ : Request}
    {h₁ h₂ : Handler} (hh₁ : r₁.handler = some h₁) (hh₂ : r₂.handler = some h₂)
    (hn₁ : r₁.names name = true) (hn₂ : r₂.names name = true) {object : ℕ}
    {schedule : List Side} {trace : List (Side × Handler)} {t' : Threads Handler (Shared Stores)}
    (hrun : interleave (Handler.advance F name) schedule ⟨h₁, h₂, ⟨e, object⟩⟩ =
      some (trace, t')) :
    (First Handler.Independent .left trace → t'.left.Safe ∧ t'.right.Safe ∧
      ∀ o₁ o₂, t'.left = .done (some o₁) → t'.right = .done (some o₂) →
        Serial F e r₁ r₂ o₁ o₂ t'.shared.engine) ∧
    (First Handler.Independent .right trace → t'.left.Safe ∧ t'.right.Safe ∧
      ∀ o₁ o₂, t'.left = .done (some o₁) → t'.right = .done (some o₂) →
        Serial F e r₂ r₁ o₂ o₁ t'.shared.engine) ∧
    (r₁.isSetAttribute = true → r₂.isSetAttribute = true →
      First Handler.Independent .left trace ∨ First Handler.Independent .right trace) := by
  have hview := interleave_view (P := fun s => s.engine.All Stores.Wf)
    (fun a s hs => (Handler.advance_map F stores_refine_simulation a hs).1)
    (fun a s a' s' hs => (Handler.advance_map F stores_refine_simulation a hs).2 a' s') he.wf hrun
  have hserial : ∀ {q₁ q₂ : Request} {o₁ o₂ : Response} {m : Engine AttributeMap},
      step F e.view q₁ = some (o₁, m) → step F m q₂ = some (o₂, t'.shared.engine.view) →
      Serial F e q₁ q₂ o₁ o₂ t'.shared.engine := by
    intro q₁ q₂ o₁ o₂ m hq₁ hq₂
    obtain ⟨e₁, hstep₁, rfl, hwf₁⟩ := step_of_view he.wf hq₁
    obtain ⟨e₂, hstep₂, heq, -⟩ := step_of_view hwf₁ hq₂
    exact ⟨e₁, e₂, hstep₁, hstep₂, heq⟩
  refine ⟨fun hleft => ?_, fun hright => ?_, fun hset₁ hset₂ => ?_⟩
  · obtain ⟨hsafe₁, hsafe₂, hdone⟩ := serial_of_first hh₁ hh₂ hn₁ hn₂ hview hleft
    refine ⟨hsafe₁, hsafe₂, fun o₁ o₂ ho₁ ho₂ => ?_⟩
    obtain ⟨m, hm₁, hm₂⟩ := hdone o₁ o₂ ho₁ ho₂
    exact hserial hm₁ hm₂
  · obtain ⟨hsafe₂, hsafe₁, hdone⟩ := serial_of_first hh₂ hh₁ hn₂ hn₁ (interleave_swap hview)
      hright.swap
    refine ⟨hsafe₁, hsafe₂, fun o₁ o₂ ho₁ ho₂ => ?_⟩
    obtain ⟨m, hm₂, hm₁⟩ := hdone o₂ o₁ ho₂ ho₁
    exact hserial hm₂ hm₁
  · exact Handler.first_of_setting hrun (Handler.setting_of_isSetAttribute hset₁ hh₁)
      (Handler.setting_of_isSetAttribute hset₂ hh₂)

/-- One attribute that starts at zero, and a system that adds one to it. -/
def counter : SimulationDef where
  name := "s"
  entities := [⟨1, ["C"]⟩]
  components := [⟨"C", (∅ : OrderedDict String DataType).insert "a" (.primitive .int32)⟩]
  systems := [⟨1, [], [⟨⟨1, "C", "a"⟩, .binary .add (.retrieve ⟨1, "C", "a"⟩)
    (.const (setVal (.number (.int32 1))))⟩]⟩]
  initGraph := ⟨[], [⟨⟨1, "C", "a"⟩, .const (setVal (.number (.int32 0)))⟩]⟩

/-- The value of the attribute of `counter`. -/
def counted (e : Engine AttributeMap) : Option (Option Value) :=
  (e.sims.get? "s").map fun sim => sim.store.value ⟨1, "C", "a"⟩

/-- `SetAttribute` of the counter. -/
def setCounter (n : ℤ) : Request :=
  .setAttribute "s" ⟨1, "C", "a"⟩ (setVal (.number (.int32 (BitVec.ofInt 32 n))))

/-- Two `SetAttribute` requests of which the one that begins stores last. They are served in the
other order. -/
theorem interleaved_serial_counter : ∃ trace t',
    interleave (Handler.advance default "s")
      [.left, .right, .right, .left, .right, .right, .left, .left, .right, .left, .right, .left]
      ⟨.setContains ⟨1, "C", "a"⟩ (setVal (.number (.int32 7))),
        .setContains ⟨1, "C", "a"⟩ (setVal (.number (.int32 8))), ⟨afterApply counter, 0⟩⟩ =
      some (trace, t') ∧
    counted t'.shared.engine.view = some (some (setVal (.number (.int32 7)))) ∧
    Serial default (afterApply counter) (setCounter 8) (setCounter 7) .empty .empty
      t'.shared.engine := by
  have hreach : (afterApply counter).Reachable default :=
    ⟨0, [.applySimulation counter], _, rfl⟩
  have hreplied : (interleave (Handler.advance default "s")
      [.left, .right, .right, .left, .right, .right, .left, .left, .right, .left, .right, .left]
      ⟨.setContains ⟨1, "C", "a"⟩ (setVal (.number (.int32 7))),
        .setContains ⟨1, "C", "a"⟩ (setVal (.number (.int32 8))), ⟨afterApply counter, 0⟩⟩).map
        (fun run => (run.2.left.replied, run.2.right.replied, counted run.2.shared.engine.view)) =
      some (some .empty, some .empty, some (some (setVal (.number (.int32 7))))) := by
    decide +kernel
  obtain ⟨⟨trace, t'⟩, hrun, heq⟩ := Option.map_eq_some_iff.mp hreplied
  simp only [Prod.mk.injEq, Handler.replied_eq_some_iff] at heq
  obtain ⟨hleft, hright, hcount⟩ := heq
  refine ⟨trace, t', hrun, hcount, ?_⟩
  have hr₁ : (setCounter 7).handler =
      some (.setContains ⟨1, "C", "a"⟩ (setVal (.number (.int32 7)))) := rfl
  have hr₂ : (setCounter 8).handler =
      some (.setContains ⟨1, "C", "a"⟩ (setVal (.number (.int32 8)))) := rfl
  obtain ⟨hleftFirst, hrightFirst, hset⟩ :=
    interleaved_serial hreach hr₁ hr₂ (by decide) (by decide) hrun
  rcases hset rfl rfl with hfirst | hfirst
  · -- in the order in which they begin the counter would end at 8
    obtain ⟨e₁, e₂, h₁, h₂, hview⟩ := (hleftFirst hfirst).2.2 _ _ hleft hright
    have height : ((step default (afterApply counter) (setCounter 7)).bind fun p =>
        (step default p.2 (setCounter 8)).map fun q => counted q.2.view) =
        some (some (some (setVal (.number (.int32 8))))) := by decide +kernel
    simp only [h₁, Option.bind_some, h₂, Option.map_some, hview, hcount] at height
    cases height
  · exact (hrightFirst hfirst).2.2 _ _ hleft hright

/-- **A lost update**: two `StepSimulation` requests both read zero, and both store one. -/
theorem update_lost :
    ¬ ∀ (F : FloatOps) (e : Engine Stores) (name : String) (r₁ r₂ : Request) (h₁ h₂ : Handler)
      (object : ℕ) (schedule : List Side) (trace : List (Side × Handler))
      (t' : Threads Handler (Shared Stores)), e.Reachable F → r₁.handler = some h₁ →
      r₂.handler = some h₂ → r₁.names name = true → r₂.names name = true →
      interleave (Handler.advance F name) schedule ⟨h₁, h₂, ⟨e, object⟩⟩ = some (trace, t') →
      t'.left.Safe ∧ t'.right.Safe ∧
        ∀ o₁ o₂, t'.left = .done (some o₁) → t'.right = .done (some o₂) →
          Serial F e r₁ r₂ o₁ o₂ t'.shared.engine ∨ Serial F e r₂ r₁ o₂ o₁ t'.shared.engine := by
  intro h
  have hreach : (afterApply counter).Reachable default :=
    ⟨0, [.applySimulation counter], _, rfl⟩
  -- each handler: contains, at, the evaluation, the store
  have hone : (interleave (Handler.advance default "s")
      [.left, .right, .left, .right, .left, .right, .left, .right]
      ⟨.stepContains, .stepContains, ⟨afterApply counter, 0⟩⟩).map
        (fun run => (run.2.left.replied, run.2.right.replied, counted run.2.shared.engine.view)) =
      some (some .empty, some .empty, some (some (setVal (.number (.int32 1))))) := by
    decide +kernel
  have htwo : ((step default (afterApply counter) (.stepSimulation "s")).bind fun p =>
      (step default p.2 (.stepSimulation "s")).map fun q => counted q.2.view) =
      some (some (some (setVal (.number (.int32 2))))) := by decide +kernel
  obtain ⟨⟨trace, t'⟩, hrun, heq⟩ := Option.map_eq_some_iff.mp hone
  simp only [Prod.mk.injEq, Handler.replied_eq_some_iff] at heq
  obtain ⟨hleft, hright, hcount⟩ := heq
  have hserial := (h default _ "s" (.stepSimulation "s") (.stepSimulation "s") _ _ 0 _ trace t'
    hreach rfl rfl (by decide) (by decide) hrun).2.2 _ _ hleft hright
  rw [or_self] at hserial
  obtain ⟨e₁, e₂, h₁, h₂, hview⟩ := hserial
  simp only [h₁, Option.bind_some, h₂, Option.map_some, hview, hcount] at htwo
  cases htwo

/-- A simulation is dropped under a step that has taken its references. -/
example : ((interleave (Handler.advance default "s") [.left, .left, .right, .right, .left]
    ⟨.stepContains, .dropContains, ⟨afterApply counter, 0⟩⟩).map
      fun run => run.2.left matches .dangling) = some true := by
  decide +kernel

end Engine
end Bentobox
