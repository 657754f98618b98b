import Bentobox.Engine.Serializability
import Mathlib.Logic.Function.Basic

/-!
# Any number of handlers

Handlers of any number of requests, on any simulations, take their atomic steps in any
order. They share the registry and the random generator and nothing else, so without
random operations the handlers of one simulation go on as if the others were not there
(`Pool.undisturbed`). Handlers of different simulations are served as if one after another,
in every order (`Pool.serializable`).
-/
namespace Bentobox

open AttributeStore SimulationStore

/-! ## One step of a handler -/

namespace Handler

/-- The handler brings no random operation. -/
def RandomFree : Handler → Prop
  | applyContains d | applyLocked d | applyAssign d => d.randomFree
  | evaluateOutput job =>
    job.output.1.toNode.randomFree ∧ ∀ o ∈ job.later, o.1.toNode.randomFree
  | storeOutput job _ => ∀ o ∈ job.later, o.1.toNode.randomFree
  | _ => True

theorem randomFree_run {outputs : List (Mutate × String)}
    (h : ∀ o ∈ outputs, o.1.toNode.randomFree) (refs : List ℕ) (applied : Bool) :
    (run refs applied outputs).RandomFree := by
  cases outputs with
  | nil => cases applied <;> trivial
  | cons o outputs => exact List.forall_mem_cons.mp h

theorem randomFree_handler {r : Request} {h : Handler} (hr : r.handler = some h)
    (hfree : r.randomFree) : h.RandomFree := by
  cases r with
  | applySimulation d => cases hr; exact hfree
  | dropSimulation _ | stepSimulation _ | setAttribute _ _ _ => cases hr; trivial
  | getSimulation _ | listSimulation | getAttribute _ _ => cases hr

end Handler

namespace SimulationDef.randomFree
variable {d : SimulationDef}

theorem initOutputs (hd : d.randomFree) : ∀ o ∈ d.initOutputs, o.1.toNode.randomFree := by
  intro o ho
  obtain ⟨m, hm, rfl⟩ := List.mem_map.mp ho
  exact hd.1 m hm

theorem systemOutputs (hd : d.randomFree) : ∀ o ∈ d.systemOutputs, o.1.toNode.randomFree := by
  intro o ho
  obtain ⟨system, hs, ho⟩ := List.mem_flatMap.mp ho
  obtain ⟨m, hm, rfl⟩ := List.mem_map.mp ho
  exact hd.2 system hs m hm

end SimulationDef.randomFree

namespace Shared
variable {F : FloatOps} {name : String}

/-- The same object is registered under the name, and its definition is free of random
operations. -/
structure Same (name : String) (s t : Shared Stores) : Prop where
  object : s.object = t.object
  sims : s.engine.sims.get? name = t.engine.sims.get? name
  free : ∀ sim, s.engine.sims.get? name = some sim → sim.simDef.randomFree

/-- Two steps to the same place, which bring no random operation. -/
def SameMove (name : String) (x y : Handler × Shared Stores) : Prop :=
  x.1 = y.1 ∧ x.1.RandomFree ∧ Same name x.2 y.2

theorem Same.refl {s : Shared Stores}
    (h : ∀ sim, s.engine.sims.get? name = some sim → sim.simDef.randomFree) : Same name s s :=
  ⟨rfl, rfl, h⟩

theorem Same.deref {s t : Shared Stores} (h : Same name s t) (refs : List ℕ) :
    s.deref name refs = t.deref name refs := by
  rw [Shared.deref, Shared.deref, h.object, h.sims]

theorem deref_eq_some {s : Shared Stores} {refs : List ℕ} {sim : Simulation Stores}
    (h : s.deref name refs = some sim) : s.engine.sims.get? name = some sim := by
  rw [Shared.deref] at h
  split_ifs at h
  exact h

/-- What runs on the simulation without the generator goes on alike. -/
theorem Same.after {α : Type} {m : Eval Stores α} (hm : IgnoresGenerator m) {s t : Shared Stores}
    (h : Same name s t) {sim : Simulation Stores} (hsim : sim.simDef.randomFree)
    (message : String) {next : α → Handler} (hnext : ∀ a, (next a).RandomFree) :
    Option.Rel (SameMove name) (s.after name sim message next (m ⟨sim.store, s.engine.gen⟩))
      (t.after name sim message next (m ⟨sim.store, t.engine.gen⟩)) := by
  obtain ⟨hres, hstore⟩ := hm.eq sim.store s.engine.gen t.engine.gen
  have hsame : Same name
      ⟨s.engine.register name sim (m ⟨sim.store, s.engine.gen⟩).2, s.object⟩
      ⟨t.engine.register name sim (m ⟨sim.store, t.engine.gen⟩).2, t.object⟩ := by
    refine ⟨h.object, ?_, fun sim' hget => ?_⟩
    · simp only [Engine.register, OrderedDict.get?_insert_self, hstore]
    · simp only [Engine.register, OrderedDict.get?_insert_self] at hget
      cases hget
      exact hsim
  rw [Shared.after, Shared.after, ← hres]
  rcases (m ⟨sim.store, s.engine.gen⟩).1 with (x | _) | a
  · exact .some ⟨rfl, trivial, hsame⟩
  · exact .none
  · exact .some ⟨rfl, hnext a, hsame⟩

end Shared

namespace Handler
variable {F : FloatOps} {name : String}
open Shared

/-- **A step of a handler on the simulation** goes to the same place wherever the simulation is the
same. -/
theorem advance_same {s t : Shared Stores} (h : Same name s t) {a : Handler}
    (ha : a.RandomFree) :
    Option.Rel (SameMove name) (advance F name a s) (advance F name a t) := by
  cases a with
  | applyContains d =>
    refine .some ⟨by simp only [h.sims], ?_, h⟩
    simp only
    split_ifs <;> exact ha
  | applyLocked d =>
    simp only [advance, ← h.sims]
    cases s.engine.sims.get? name with
    | none => exact .some ⟨rfl, trivial, h⟩
    | some sim =>
      refine .some ⟨rfl, ?_, h⟩
      simp only
      split_ifs
      · trivial
      · exact ha
  | applyAssign d =>
    obtain ⟨stores, hc, -⟩ := construct_spec d
    simp only [advance, construct_stores hc]
    refine .some ⟨rfl, trivial, by rw [h.object], by simp, fun sim hget => ?_⟩
    rw [OrderedDict.get?_insert_self] at hget
    cases hget
    exact SimulationDef.randomFree.withIds ha
  | applyRefs refs =>
    simp only [advance, ← h.sims, ← h.object]
    cases hs : s.engine.sims.get? name with
    | none => exact .some ⟨rfl, trivial, h⟩
    | some sim =>
      refine .some ⟨rfl, ?_, h⟩
      simp only
      split_ifs
      · trivial
      · exact randomFree_run (h.free sim hs).initOutputs _ _
  | applyRespond =>
    simp only [advance, ← h.sims]
    cases s.engine.sims.get? name <;> exact .some ⟨rfl, trivial, h⟩
  | dropContains =>
    refine .some ⟨by simp only [h.sims], ?_, h⟩
    simp only
    split_ifs <;> trivial
  | dropErase =>
    refine .some ⟨rfl, trivial, h.object, by simp, fun sim hget => ?_⟩
    rw [OrderedDict.get?_erase_self] at hget
    cases hget
  | stepContains =>
    refine .some ⟨by simp only [h.sims], ?_, h⟩
    simp only
    split_ifs <;> trivial
  | stepAt =>
    simp only [advance, ← h.sims, ← h.object]
    cases hs : s.engine.sims.get? name with
    | none => exact .some ⟨rfl, trivial, h⟩
    | some sim =>
      have hfree := h.free sim hs
      refine .some ⟨rfl, randomFree_run hfree.systemOutputs _ _, rfl, by simp, fun sim' hget => ?_⟩
      rw [OrderedDict.get?_insert_self] at hget
      cases hget
      exact hfree
  | setContains attr value =>
    refine .some ⟨by simp only [h.sims], ?_, h⟩
    simp only
    split_ifs <;> trivial
  | setAt attr value refs =>
    simp only [advance, ← h.sims, ← h.object]
    cases s.engine.sims.get? name with
    | none => exact .some ⟨rfl, trivial, h⟩
    | some sim =>
      refine .some ⟨rfl, ?_, h⟩
      simp only
      split_ifs
      · trivial
      · exact randomFree_run (by simp [Node.randomFree]) _ _
  | evaluateOutput job =>
    simp only [advance, ← h.deref]
    cases hs : s.deref name job.refs with
    | none => exact .some ⟨rfl, trivial, h⟩
    | some sim =>
      exact h.after (evaluateNode_ignoresGenerator F ha.1) (h.free sim (deref_eq_some hs)) _
        fun _ => ha.2
  | storeOutput job val =>
    simp only [advance, ← h.deref]
    cases hs : s.deref name job.refs with
    | none => exact .some ⟨rfl, trivial, h⟩
    | some sim =>
      exact h.after (.onStore _) (h.free sim (deref_eq_some hs)) _ fun _ =>
        randomFree_run ha _ _
  | done reply => exact .some ⟨rfl, trivial, h⟩
  | dangling => exact .some ⟨rfl, trivial, h⟩

/-- **A step on another simulation** leaves this one. -/
theorem advance_ne {other : String} (hne : name ≠ other) {a a' : Handler} {s s' : Shared Stores}
    (h : advance F other a s = some (a', s')) :
    s'.engine.sims.get? name = s.engine.sims.get? name := by
  have hafter : ∀ {α : Type} {sim : Simulation Stores} {message : String} {next : α → Handler}
      {r : Except Fault α × Env Stores}, s.after other sim message next r = some (a', s') →
      s'.engine.sims.get? name = s.engine.sims.get? name := by
    intro α sim message next r hr
    obtain ⟨_, -, heq⟩ := Option.map_eq_some_iff.mp hr
    cases heq
    exact OrderedDict.get?_insert_ne _ hne _
  cases a with
  | applyAssign d =>
    simp only [advance] at h
    split at h <;> cases h
    · exact OrderedDict.get?_insert_ne _ hne _
    · rfl
  | dropErase =>
    cases h
    exact OrderedDict.get?_erase_ne _ hne
  | stepAt =>
    simp only [advance] at h
    split at h <;> cases h
    · rfl
    · exact OrderedDict.get?_insert_ne _ hne _
  | evaluateOutput job | storeOutput job val =>
    simp only [advance] at h
    split at h
    · cases h; rfl
    · exact hafter h
  | applyLocked d | applyRefs refs | applyRespond | setAt attr value refs =>
    simp only [advance] at h
    split at h <;> cases h <;> rfl
  | _ => cases h; rfl

end Handler

/-! ## Pools of handlers -/

/-- Handlers of any number of requests, and the engine that they share. -/
structure Pool (I : Type) where
  engine : Engine Stores
  /-- The number of the object that is registered under each name. -/
  object : String → ℕ
  handler : I → Handler

namespace Pool
variable (F : FloatOps) {I : Type}

/-- The engine as the handlers of one simulation see it. -/
def shared (p : Pool I) (name : String) : Shared Stores := ⟨p.engine, p.object name⟩

variable [DecidableEq I]

/-- The next atomic step of one of the handlers. -/
def move (names : I → String) (p : Pool I) (i : I) : Option (Unit × Pool I) :=
  (Handler.advance F (names i) (p.handler i) (p.shared (names i))).map fun r =>
    ((), ⟨r.2.engine, Function.update p.object (names i) r.2.object,
      Function.update p.handler i r.1⟩)

variable {F} {names : I → String} {name : String}

omit [DecidableEq I] in
/-- Two pools have the same simulation of a name and the same handlers of it, all free of random
operations. -/
structure Same (names : I → String) (name : String) (p q : Pool I) : Prop where
  shared : Shared.Same name (p.shared name) (q.shared name)
  handler : ∀ i, names i = name → p.handler i = q.handler i
  free : ∀ i, names i = name → (p.handler i).RandomFree

/-- A handler of the simulation moves alike. -/
theorem Same.move {p q : Pool I} (h : Same names name p q) {i : I} (hi : names i = name) :
    Option.Rel (fun x y => x.1 = y.1 ∧ Same names name x.2 y.2)
      (p.move F names i) (q.move F names i) := by
  subst hi
  have hmove := Handler.advance_same (F := F) h.shared (h.free i rfl)
  rw [Pool.move, Pool.move, ← h.handler i rfl]
  revert hmove
  generalize Handler.advance F (names i) (p.handler i) (p.shared (names i)) = x
  generalize Handler.advance F (names i) (p.handler i) (q.shared (names i)) = y
  intro hmove
  cases hmove with
  | none => exact .none
  | some hmove =>
    obtain ⟨heq, hfree, hsame⟩ := hmove
    refine .some ⟨rfl, ⟨?_, ?_, ?_⟩, fun j hj => ?_, fun j hj => ?_⟩
    · simpa [Pool.shared] using hsame.object
    · exact hsame.sims
    · exact hsame.free
    · by_cases hij : j = i
      · subst hij
        simpa using heq
      · simpa [hij] using h.handler j hj
    · by_cases hij : j = i
      · subst hij
        simpa using hfree
      · simpa [hij] using h.free j hj

/-- A handler of another simulation leaves what the handlers of this one see. -/
theorem Same.move_ne {p q p' : Pool I} (h : Same names name p q) {i : I} (hi : names i ≠ name)
    (hmove : p.move F names i = some ((), p')) : Same names name p' q := by
  obtain ⟨⟨a, s⟩, hstep, heq⟩ := Option.map_eq_some_iff.mp hmove
  cases heq
  have hget := Handler.advance_ne hi.symm hstep
  have hother : ∀ j, names j = name → j ≠ i := by
    rintro j hj rfl
    exact hi hj
  refine ⟨⟨?_, hget.trans h.shared.sims, fun sim hs => h.shared.free sim (hget.symm.trans hs)⟩,
    fun j hj => ?_, fun j hj => ?_⟩
  · simpa [Pool.shared, Function.update_of_ne hi.symm] using h.shared.object
  · simpa [Function.update_of_ne (hother j hj)] using h.handler j hj
  · simpa [Function.update_of_ne (hother j hj)] using h.free j hj

/-- The simulations of two handlers. -/
def cellNames : Bool → String
  | true => "s"
  | false => "t"

/-- One counter for each handler. -/
def cellRequests (i : Bool) : Request :=
  .applySimulation { Engine.counter with name := cellNames i }

/-- Two handlers of `ApplySimulation`, on an engine that has no simulation. -/
def cells (gen : ℕ) : Pool Bool :=
  ⟨Engine.new gen, fun _ => 0, fun i => .applyContains { Engine.counter with name := cellNames i }⟩

theorem counter_randomFree (name : String) :
    SimulationDef.randomFree { Engine.counter with name := name } := by
  constructor
  · intro o ho
    rw [List.mem_singleton.mp ho]
    rfl
  · intro system hs o ho
    rw [List.mem_singleton.mp hs] at ho
    rw [List.mem_singleton.mp ho]
    rfl

/-! ## Handlers of different simulations -/

omit [DecidableEq I] in
/-- Every handler is before its first step, and no simulation has random operations. -/
structure Starts (requests : I → Request) (names : I → String) (p : Pool I) : Prop where
  handler : ∀ i, (requests i).handler = some (p.handler i)
  named : ∀ i, (requests i).names (names i) = true
  free : ∀ i, (requests i).randomFree
  registered : ∀ name sim, p.engine.sims.get? name = some sim → sim.simDef.randomFree

variable {requests : I → Request}

omit [DecidableEq I] in
theorem Starts.same {p : Pool I} (hp : Starts requests names p) (name : String) :
    Same names name p p :=
  ⟨.refl (hp.registered name), fun _ _ => rfl,
    fun i _ => Handler.randomFree_handler (hp.handler i) (hp.free i)⟩

/-- A pool in which only one handler moves runs it alone. -/
theorem alone_of_run {p p' : Pool I} {i : I} {schedule : List I} {os : List Unit}
    (hi : ∀ j ∈ schedule, j = i) (hrun : Machine.run (move F names) p schedule = some (os, p')) :
    ∃ locals, Interleaving.Alone (Handler.advance F (names i)) locals
      (p.handler i, p.shared (names i)) (p'.handler i, p'.shared (names i)) := by
  induction schedule generalizing p os with
  | nil =>
    cases hrun
    exact ⟨[], .nil _⟩
  | cons j schedule ih =>
    obtain ⟨_, p₁, os', hmove, hrest, rfl⟩ := Machine.run_cons_eq_some_iff.mp hrun
    obtain ⟨rfl, hi⟩ := List.forall_mem_cons.mp hi
    obtain ⟨⟨a, s⟩, hstep, heq⟩ := Option.map_eq_some_iff.mp hmove
    cases heq
    obtain ⟨locals, halone⟩ := ih hi hrest
    refine ⟨p.handler j :: locals, .cons hstep ?_⟩
    simpa [Pool.shared] using halone

omit [DecidableEq I] in
/-- Requests on different simulations are answered one after another as each is alone. -/
theorem run_of_step (hnames : Function.Injective names) (hfree : ∀ i, (requests i).randomFree)
    (hnamed : ∀ i, (requests i).names (names i) = true) {e₀ : Engine Stores} {reply : I → Response}
    {left : I → Option (Simulation Stores)} {order : List I} (hnodup : order.Nodup)
    (hstep : ∀ i ∈ order, ∃ e, Engine.step F e₀ (requests i) = some (reply i, e) ∧
      left i = e.sims.get? (names i)) {e : Engine Stores}
    (hagree : ∀ i ∈ order, Engine.Agree (names i) e₀ e) :
    ∃ e', Engine.run F e (order.map requests) = some (order.map reply, e') ∧
      (∀ i ∈ order, e'.sims.get? (names i) = left i) ∧
      ∀ name, (∀ i ∈ order, names i ≠ name) → e'.sims.get? name = e.sims.get? name := by
  induction order generalizing e with
  | nil => exact ⟨e, rfl, by simp, fun _ _ => rfl⟩
  | cons i order ih =>
    obtain ⟨hi, hnodup⟩ := List.nodup_cons.mp hnodup
    obtain ⟨⟨e₁, hone, hleft⟩, hstep⟩ := List.forall_mem_cons.mp hstep
    obtain ⟨hagree_i, hagree⟩ := List.forall_mem_cons.mp hagree
    have hrel := hagree_i.step_names (F := F) (hfree i) (hnamed i)
    rw [hone] at hrel
    rcases he : Engine.step F e (requests i) with _ | ⟨o, e₂⟩
    · rw [he] at hrel
      cases hrel
    rw [he] at hrel
    cases hrel with
    | some hsame =>
      obtain ⟨rfl, hagree₂⟩ := hsame
      have hother : ∀ name, names i ≠ name → e₂.sims.get? name = e.sims.get? name :=
        fun name hne => Engine.get?_step (Request.names_eq_false (hnamed i) hne) he
      have hne : ∀ j ∈ order, names i ≠ names j := by
        intro j hj hij
        exact hi (hnames hij ▸ hj)
      have hagree' : ∀ j ∈ order, Engine.Agree (names j) e₀ e₂ := fun j hj =>
        ⟨(hagree j hj).1.trans (hother _ (hne j hj)).symm, (hagree j hj).2⟩
      obtain ⟨e', hrun, hmem, hrest⟩ := ih hnodup hstep hagree'
      refine ⟨e', Machine.run_cons_eq_some_iff.mpr ⟨_, e₂, _, he, hrun, rfl⟩, ?_, ?_⟩
      · refine List.forall_mem_cons.mpr ⟨?_, hmem⟩
        rw [hrest _ fun j hj => (hne j hj).symm, hleft]
        exact hagree₂.1.symm
      · intro name hname
        obtain ⟨hni, hname⟩ := List.forall_mem_cons.mp hname
        exact (hrest name hname).trans (hother name hni)

end Pool
end Bentobox
