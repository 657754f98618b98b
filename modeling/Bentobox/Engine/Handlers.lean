import Bentobox.Lib.Interleaving
import Bentobox.Engine.Answers
import Bentobox.Engine.Isolation

/-!
# Handlers that run at the same time

The handlers of `ApplySimulation`, `DropSimulation`, `StepSimulation` and `SetAttribute`
as sequences of atomic steps: every access to the map `sims`, every evaluation of the
expression of an output and every store of its value is one. They name one simulation.

A handler keeps references into the simulation object it found. The objects registered
under the name are numbered; a reference to any but the latest, or to that one after it
was dropped, dangles. An evaluation or a store is taken to use all references.
-/
namespace Bentobox

open AttributeStore SimulationStore

/-- The outputs that a handler runs, each with the text of its catch clause. -/
structure Job where
  refs : List ℕ
  output : Mutate × String
  later : List (Mutate × String)
  /-- The handler is `ApplySimulation`, which replies with the definition. -/
  applied : Bool

/-- Where a handler is. -/
inductive Handler
  | applyContains (simulation : SimulationDef)
  | applyLocked (simulation : SimulationDef)
  | applyAssign (simulation : SimulationDef)
  /-- The three accesses `sims[name]` that the init graph is run through. -/
  | applyRefs (refs : List ℕ)
  | applyRespond
  | dropContains
  | dropErase
  | stepContains
  | stepAt
  | setContains (attr : AttributeRef) (value : Value)
  /-- The three accesses `sims.at(sim_name)`. -/
  | setAt (attr : AttributeRef) (value : Value) (refs : List ℕ)
  | evaluateOutput (job : Job)
  | storeOutput (job : Job) (val : Value)
  /-- The handler has replied, or an exception has left it. -/
  | done (reply : Option Response)
  /-- The handler has used a simulation that is absent. -/
  | dangling

/-- The engine and the number of the object that is registered under the name. -/
structure Shared (S : Type) where
  engine : Engine S
  object : ℕ

/-- The handler of a request, before its first step. -/
def Request.handler : Request → Option Handler
  | applySimulation simulation => some (.applyContains simulation)
  | dropSimulation _ => some .dropContains
  | stepSimulation _ => some .stepContains
  | setAttribute _ attr value => some (.setContains attr value)
  | _ => none

namespace Handler

/-- Go on with the first of the outputs. -/
def run (refs : List ℕ) (applied : Bool) : List (Mutate × String) → Handler
  | output :: later => .evaluateOutput ⟨refs, output, later, applied⟩
  | [] => if applied then .applyRespond else .done (some .empty)

/-- Go on with what was returned; an exception is caught and reported. -/
def caught {α : Type} (message : String) (next : α → Handler) : Except Fault α → Option Handler
  | .ok a => some (next a)
  | .error (.exception x) => some (.done (some (.error .internal (formatError message x))))
  | .error .undefined => none

end Handler

/-- The outputs of the initial graph. -/
def SimulationDef.initOutputs (d : SimulationDef) : List (Mutate × String) :=
  d.initGraph.outputs.map fun o =>
    (o, "Something went wrong while running the initGraph of the simulation")

/-- The outputs of the systems. -/
def SimulationDef.systemOutputs (d : SimulationDef) : List (Mutate × String) :=
  d.systems.flatMap fun system => system.graph.outputs.map fun o =>
    (o, "Something went wrong while running system with ID: " ++ toString system.id ++ ".")

namespace Shared
variable {S α : Type}

/-- The simulation that all references lead to. -/
def deref (name : String) (s : Shared S) (refs : List ℕ) : Option (Simulation S) :=
  if refs.all fun ref => ref = s.object then s.engine.sims.get? name else none

/-- The simulation is registered, and the references are to it. -/
def Linked (name : String) (s : Shared S) (refs : List ℕ) : Prop :=
  (s.engine.sims.get? name).isSome = true ∧ ∀ ref ∈ refs, ref = s.object

theorem Linked.deref {name : String} {refs : List ℕ} {s : Shared S} (h : s.Linked name refs) :
    ∃ sim, s.engine.sims.get? name = some sim ∧ s.deref name refs = some sim := by
  obtain ⟨sim, hs⟩ := Option.isSome_iff_exists.mp h.1
  refine ⟨sim, hs, ?_⟩
  rw [Shared.deref, if_pos (by simpa using h.2), hs]

theorem linked_nil {name : String} {s : Shared S} {sim : Simulation S}
    (h : s.engine.sims.get? name = some sim) : s.Linked name [] :=
  ⟨by rw [h]; rfl, by simp⟩

/-- A part of a graph has run on the simulation. -/
def after (name : String) (sim : Simulation S) (s : Shared S) (message : String)
    (next : α → Handler) (r : Except Fault α × Env S) : Option (Handler × Shared S) :=
  (Handler.caught message next r.1).map fun h =>
    (h, ⟨s.engine.register name sim r.2, s.object⟩)

end Shared

namespace Handler
variable (F : FloatOps) {S : Type} [SimulationStore S]

/-- The next atomic step of a handler on the simulation `name`. -/
def advance (name : String) : Handler → Shared S → Option (Handler × Shared S)
  | .applyContains d, s =>
    some (if (s.engine.sims.get? name).isSome then .applyLocked d else .applyAssign d, s)
  | .applyLocked d, s =>
    match s.engine.sims.get? name with
    | none => some (.dangling, s)
    | some sim =>
      some (if sim.locked then .done (some (.error .alreadyExists
        "The simulation has been created and stepped at least once.")) else .applyAssign d, s)
  | .applyAssign d, s =>
    match construct d with
    | .ok (simDef, store) =>
      some (.applyRefs [], ⟨⟨s.engine.sims.insert name ⟨simDef, store, false⟩, s.engine.gen⟩,
        s.object + 1⟩)
    | .error (.exception x) => some (.done (some (.error .internal (formatError
        "Something went wrong while creating the simulation object" x))), s)
    | .error .undefined => none
  | .applyRefs refs, s =>
    match s.engine.sims.get? name with
    | none => some (.dangling, s)
    | some sim =>
      some (if refs.length < 2 then .applyRefs (s.object :: refs)
        else run (s.object :: refs) true sim.simDef.initOutputs, s)
  | .applyRespond, s =>
    match s.engine.sims.get? name with
    | none => some (.dangling, s)
    | some sim => some (.done (some (.simulation sim.simDef)), s)
  | .dropContains, s =>
    some (if (s.engine.sims.get? name).isSome then .dropErase else .done (some simNotFound), s)
  | .dropErase, s =>
    some (.done (some .empty), ⟨⟨s.engine.sims.erase name, s.engine.gen⟩, s.object⟩)
  | .stepContains, s =>
    some (if (s.engine.sims.get? name).isSome then .stepAt else .done (some simNotFound), s)
  | .stepAt, s =>
    match s.engine.sims.get? name with
    | none => some (.done none, s)
    | some sim =>
      some (run [s.object] false sim.simDef.systemOutputs,
        ⟨⟨s.engine.sims.insert name { sim with locked := true }, s.engine.gen⟩, s.object⟩)
  | .setContains attr value, s =>
    some (if (s.engine.sims.get? name).isSome then .setAt attr value []
      else .done (some simNotFound), s)
  | .setAt attr value refs, s =>
    match s.engine.sims.get? name with
    | none => some (.done none, s)
    | some _ =>
      some (if refs.length < 2 then .setAt attr value (s.object :: refs)
        else run (s.object :: refs) false
          [(⟨attr, .const value⟩, "Setting attribute failed.")], s)
  | .evaluateOutput job, s =>
    match s.deref name job.refs with
    | none => some (.dangling, s)
    | some sim =>
      s.after name sim job.output.2 (.storeOutput job)
        (evaluateNode F job.output.1.toNode ⟨sim.store, s.engine.gen⟩)
  | .storeOutput job val, s =>
    match s.deref name job.refs with
    | none => some (.dangling, s)
    | some sim =>
      s.after name sim job.output.2 (fun _ => run job.refs job.applied job.later)
        (onStore (assign F job.output.1.mutateAttr val) ⟨sim.store, s.engine.gen⟩)
  | .done reply, s => some (.done reply, s)
  | .dangling, s => some (.dangling, s)

/-! ## A handler alone -/

/-- Run the outputs, each with the text of its catch clause. -/
def runOutputs {S : Type} [AttributeStore S] (outputs : List (Mutate × String)) : Eval S Unit :=
  Fallible.forEach (fun o => Fallible.mapFault (Fault.describe o.2) (mutateOp F o.1)) outputs

/-- Reply to what ran on the simulation. -/
def reply (applied : Bool) (name : String) (sim : Simulation S) (m : Eval S Unit)
    (s : Shared S) : Option (Response × Engine S) :=
  Engine.answer (fun _ => if applied then .simulation sim.simDef else .empty)
    (fun x => .error .internal x.what) (Engine.runOn m name sim s.engine)

/-- What a handler that runs on without interruption replies, and the engine it leaves. -/
def finish (name : String) : Handler → Shared S → Option (Response × Engine S)
  | .applyContains d, s | .applyLocked d, s => Engine.applySimulation F d s.engine
  | .applyAssign d, s =>
    match construct d with
    | .ok (simDef, store) => Engine.createSimulation F name simDef store s.engine
    | .error (.exception x) => some (.error .internal (formatError
        "Something went wrong while creating the simulation object" x), s.engine)
    | .error .undefined => none
  | .applyRefs _, s => (s.engine.sims.get? name).bind fun sim =>
      reply true name sim (runOutputs F sim.simDef.initOutputs) s
  | .applyRespond, s => (s.engine.sims.get? name).map fun sim => (.simulation sim.simDef, s.engine)
  | .dropContains, s | .dropErase, s => Engine.dropSimulation name s.engine
  | .stepContains, s | .stepAt, s => Engine.stepSimulation F name s.engine
  | .setContains attr value, s | .setAt attr value _, s =>
    Engine.setAttribute F name attr value s.engine
  | .evaluateOutput job, s => (s.engine.sims.get? name).bind fun sim =>
      reply job.applied name sim (runOutputs F (job.output :: job.later)) s
  | .storeOutput job val, s => (s.engine.sims.get? name).bind fun sim =>
      reply job.applied name sim (Fallible.mapFault (Fault.describe job.output.2)
        (onStore (assign F job.output.1.mutateAttr val)) >>= fun _ => runOutputs F job.later) s
  | .done (some response), s => some (response, s.engine)
  | .done none, _ | .dangling, _ => none

/-- What holds while a handler runs alone: the simulation it works on is there. -/
def Sound (name : String) : Handler → Shared S → Prop
  | .applyContains d, _ => d.name = name
  | .applyLocked d, s => d.name = name ∧ s.Linked name []
  | .applyAssign d, s =>
    d.name = name ∧ ((s.engine.sims.get? name).map Simulation.locked).getD false = false
  | .applyRefs refs, s | .setAt _ _ refs, s => s.Linked name refs
  | .applyRespond, s | .dropErase, s | .stepAt, s => s.Linked name []
  | .evaluateOutput job, s | .storeOutput job _, s => s.Linked name job.refs
  | .dropContains, _ | .stepContains, _ | .setContains _ _, _ => True
  | .done reply, _ => reply.isSome = true
  | .dangling, _ => False

variable {F} {name : String}

/-- Outputs with one text fail with it in front. -/
theorem runOutputs_map (message : String) (outputs : List Mutate) :
    (runOutputs F (outputs.map fun o => (o, message)) : Eval S Unit) =
      Fallible.mapFault (Fault.describe message) (Fallible.forEach (mutateOp F) outputs) := by
  rw [Fallible.mapFault_forEach]
  induction outputs with
  | nil => rfl
  | cons o outputs ih =>
    rw [List.map_cons, runOutputs, Fallible.forEach, Fallible.forEach, ← ih]
    rfl

/-- The systems run as the list of their outputs does. -/
theorem runOutputs_systemOutputs (d : SimulationDef) :
    (runOutputs F d.systemOutputs : Eval S Unit) = Engine.runSystems F d.systems := by
  rw [SimulationDef.systemOutputs]
  induction d.systems with
  | nil => rfl
  | cons system systems ih =>
    rw [List.flatMap_cons, runOutputs, Fallible.forEach_append]
    exact congrArg₂ (fun m m' => m >>= fun _ => m') (runOutputs_map _ system.graph.outputs) ih

omit [SimulationStore S] in
theorem register_register (e : Engine S) (sim : Simulation S) (s t : Env S) :
    (e.register name sim s).register name { sim with store := s.store } t =
      e.register name sim t := by
  simp only [Engine.register, OrderedDict.insert_insert]

omit [SimulationStore S] in
/-- A reply to what ran first on the store, and then on. -/
theorem reply_bind_of_ok {α : Type} {applied : Bool} {sim : Simulation S} {m : Eval S α}
    {k : α → Eval S Unit} {s : Shared S} {a : α} {env : Env S}
    (h : m ⟨sim.store, s.engine.gen⟩ = (.ok a, env)) :
    reply applied name sim (m >>= k) s = reply applied name { sim with store := env.store } (k a)
      ⟨s.engine.register name sim env, s.object⟩ := by
  have hrun : (m >>= k) ⟨sim.store, s.engine.gen⟩ = k a env := Fallible.run_bind_of_ok h
  simp only [reply, Engine.runOn, hrun]
  rw [register_register]
  rfl

omit [SimulationStore S] in
theorem reply_of_error {applied : Bool} {sim : Simulation S} {m : Eval S Unit} {s : Shared S}
    {x : Exception} {env : Env S}
    (h : m ⟨sim.store, s.engine.gen⟩ = (.error (.exception x), env)) :
    reply applied name sim m s =
      some (.error .internal x.what, s.engine.register name sim env) := by
  simp only [reply, Engine.runOn, h, Engine.answer]

omit [SimulationStore S] in
/-- A text in front of every fault is a text in front of the message of the reply. -/
theorem reply_mapFault (applied : Bool) (sim : Simulation S) (message : String) (m : Eval S Unit)
    (s : Shared S) : reply applied name sim (Fallible.mapFault (Fault.describe message) m) s =
      Engine.answer (fun _ => if applied then .simulation sim.simDef else .empty)
        (fun x => .error .internal (formatError message x))
        (Engine.runOn m name sim s.engine) := by
  simp only [reply, Engine.runOn, Fallible.mapFault]
  rcases m ⟨sim.store, s.engine.gen⟩ with ⟨(x | _) | a, env⟩ <;> rfl

omit [SimulationStore S] in
/-- What was registered before makes no difference. -/
theorem runOn_insert {α : Type} (m : Eval S α) (sim sim' : Simulation S) (e : Engine S) :
    Engine.runOn m name sim ⟨e.sims.insert name sim', e.gen⟩ = Engine.runOn m name sim e := by
  simp only [Engine.runOn, Engine.register, OrderedDict.insert_insert]

/-- The outputs that a handler goes on with are the rest of its run. -/
theorem sound_run (refs : List ℕ) (applied : Bool) {s : Shared S} {sim : Simulation S}
    (hs : s.engine.sims.get? name = some sim) (hrefs : ∀ ref ∈ refs, ref = s.object)
    (outputs : List (Mutate × String)) : Sound name (run refs applied outputs) s ∧
      finish F name (run refs applied outputs) s =
        reply applied name sim (runOutputs F outputs) s := by
  have hlinked : ∀ refs' : List ℕ, (∀ ref ∈ refs', ref = s.object) → s.Linked name refs' :=
    fun refs' h => ⟨by rw [hs]; rfl, h⟩
  cases outputs with
  | cons o outputs =>
    refine ⟨hlinked refs hrefs, ?_⟩
    simp only [run, finish, hs, Option.bind_some]
  | nil =>
    have hreply : reply applied name sim (runOutputs F []) s =
        some (if applied then .simulation sim.simDef else .empty, s.engine) := by
      change some (_, s.engine.register name sim ⟨sim.store, s.engine.gen⟩) = _
      rw [Engine.register_self hs]
    rw [hreply]
    cases applied with
    | false => exact ⟨rfl, rfl⟩
    | true => exact ⟨hlinked [] (by simp), by simp [run, finish, hs]⟩

/-- What is caught is replied; what has run is a first part of the rest of the run. -/
theorem sound_after {α : Type} {applied : Bool} {sim : Simulation S} {m : Eval S α}
    {k : α → Eval S Unit} {message : String} {next : α → Handler} {s s' : Shared S} {h' : Handler}
    (hnext : ∀ a env, m ⟨sim.store, s.engine.gen⟩ = (.ok a, env) →
      Sound name (next a) ⟨s.engine.register name sim env, s.object⟩ ∧
      finish F name (next a) ⟨s.engine.register name sim env, s.object⟩ =
        reply applied name { sim with store := env.store } (k a)
          ⟨s.engine.register name sim env, s.object⟩)
    (h : s.after name sim message next (m ⟨sim.store, s.engine.gen⟩) = some (h', s')) :
    Sound name h' s' ∧ finish F name h' s' = reply applied name sim
      (Fallible.mapFault (Fault.describe message) m >>= k) s := by
  rcases hm : m ⟨sim.store, s.engine.gen⟩ with ⟨(x | _) | a, env⟩
  · rw [hm] at h
    cases h
    have hfault : Fallible.mapFault (Fault.describe message) m ⟨sim.store, s.engine.gen⟩ =
        (.error (Fault.describe message (.exception x)), env) :=
      Fallible.mapFault_eq_error_iff.mpr ⟨_, hm, rfl⟩
    exact ⟨rfl, (reply_of_error (Fallible.run_bind_of_error hfault)).symm⟩
  · rw [hm] at h
    cases h
  · rw [hm] at h
    cases h
    obtain ⟨hsound, hfinish⟩ := hnext a env hm
    refine ⟨hsound, hfinish.trans (reply_bind_of_ok ?_).symm⟩
    exact Fallible.mapFault_eq_ok_iff.mpr hm

/-- Evaluating and then storing is what `mutateOp` does. -/
theorem mapFault_mutateOp_bind {S : Type} [AttributeStore S] (message : String) (o : Mutate)
    (k : Eval S Unit) :
    (Fallible.mapFault (Fault.describe message) (mutateOp F o) >>= fun _ => k) =
      (Fallible.mapFault (Fault.describe message) (evaluateNode F o.toNode) >>= fun v =>
        Fallible.mapFault (Fault.describe message) (onStore (assign F o.mutateAttr v)) >>=
          fun _ => k) := by
  rw [mutateOp, Fallible.mapFault_bind]
  funext s
  simp only [Fallible.run_bind]
  rcases Fallible.mapFault (Fault.describe message) (evaluateNode F o.toNode) s with ⟨_ | v, s'⟩ <;>
    rfl

/-- A definition that may be applied is built, and the simulation assigned. -/
theorem sound_applyAssign {d : SimulationDef} {s : Shared S}
    (h : ((s.engine.sims.get? d.name).map Simulation.locked).getD false = false) :
    Sound d.name (.applyAssign d) s ∧
      finish F d.name (.applyAssign d) s = Engine.applySimulation F d s.engine :=
  ⟨⟨rfl, h⟩, (if_neg (by rw [h]; exact Bool.false_ne_true)).symm⟩

/-- A handler that looks for the simulation first replies that it is not there, or goes on. -/
theorem sound_contains {next h' : Handler} {s s' : Shared S}
    {finished : Option (Response × Engine S)}
    (hnone : s.engine.sims.get? name = none → finished = some (simNotFound, s.engine))
    (hsome : ∀ sim, s.engine.sims.get? name = some sim →
      Sound name next s ∧ finish F name next s = finished)
    (hstep : some (if (s.engine.sims.get? name).isSome then next else .done (some simNotFound), s) =
      some (h', s')) : Sound name h' s' ∧ finish F name h' s' = finished := by
  cases hget : s.engine.sims.get? name with
  | none =>
    rw [hget] at hstep
    cases hstep
    exact ⟨rfl, (hnone hget).symm⟩
  | some sim =>
    rw [hget] at hstep
    cases hstep
    exact hsome sim hget

/-- **One step of a handler alone** leaves what it will reply, and the simulation stays there. -/
theorem Sound.advance {h h' : Handler} {s s' : Shared S} (hs : Sound name h s)
    (hstep : advance F name h s = some (h', s')) :
    Sound name h' s' ∧ finish F name h' s' = finish F name h s := by
  cases h with
  | applyContains d =>
    cases hget : s.engine.sims.get? name with
    | none =>
      simp only [Handler.advance, hget] at hstep
      cases hstep
      obtain rfl : d.name = name := hs
      have hunlocked : ((s.engine.sims.get? d.name).map Simulation.locked).getD false = false := by
        rw [hget, Option.map_none, Option.getD_none]
      exact sound_applyAssign hunlocked
    | some sim =>
      simp only [Handler.advance, hget] at hstep
      cases hstep
      exact ⟨⟨hs, Shared.linked_nil hget⟩, rfl⟩
  | applyLocked d =>
    obtain ⟨hname, hlink⟩ := hs
    obtain ⟨sim, hget, -⟩ := hlink.deref
    simp only [Handler.advance, hget] at hstep
    cases hlock : sim.locked with
    | true =>
      rw [hlock] at hstep
      cases hstep
      refine ⟨rfl, ?_⟩
      simp only [finish, Engine.applySimulation, hname, hget, Option.map_some, hlock,
        Option.getD_some, if_true]
    | false =>
      rw [hlock] at hstep
      cases hstep
      subst hname
      have hunlocked : ((s.engine.sims.get? d.name).map Simulation.locked).getD false = false := by
        rw [hget, Option.map_some, Option.getD_some, hlock]
      exact sound_applyAssign hunlocked
  | applyAssign d =>
    simp only [Handler.advance] at hstep
    cases hc : (construct d : Except Fault (SimulationDef × S)) with
    | error x =>
      rw [hc] at hstep
      cases x with
      | exception x => cases hstep; exact ⟨rfl, by simp only [finish, hc]⟩
      | undefined => cases hstep
    | ok p =>
      obtain ⟨simDef, store⟩ := p
      rw [hc] at hstep
      cases hstep
      refine ⟨⟨by simp, by simp⟩, ?_⟩
      simp only [finish, hc, OrderedDict.get?_insert_self, Option.bind_some]
      rw [SimulationDef.initOutputs, runOutputs_map, reply_mapFault]
      exact congrArg _ (runOn_insert _ _ _ s.engine)
  | applyRefs refs =>
    obtain ⟨sim, hget, -⟩ := hs.deref
    simp only [Handler.advance, hget] at hstep
    cases hstep
    have hrefs : ∀ ref ∈ s.object :: refs, ref = s.object :=
      List.forall_mem_cons.mpr ⟨rfl, hs.2⟩
    split_ifs with hlen
    · exact ⟨⟨hs.1, hrefs⟩, rfl⟩
    · obtain ⟨hsound, hfinish⟩ := sound_run _ true hget hrefs sim.simDef.initOutputs
      exact ⟨hsound, hfinish.trans (by simp only [finish, hget, Option.bind_some])⟩
  | applyRespond =>
    obtain ⟨sim, hget, -⟩ := hs.deref
    simp only [Handler.advance, hget] at hstep
    cases hstep
    exact ⟨rfl, by simp only [finish, hget, Option.map_some]⟩
  | dropContains =>
    refine sound_contains (fun hget => ?_) (fun sim hget => ?_) hstep
    · simp only [finish, Engine.dropSimulation, hget]
    · exact ⟨Shared.linked_nil hget, rfl⟩
  | dropErase =>
    obtain ⟨sim, hget, -⟩ := hs.deref
    cases hstep
    exact ⟨rfl, by simp only [finish, Engine.dropSimulation, hget]⟩
  | stepContains =>
    refine sound_contains (fun hget => ?_) (fun sim hget => ?_) hstep
    · simp only [finish, Engine.stepSimulation, hget]
    · exact ⟨Shared.linked_nil hget, rfl⟩
  | stepAt =>
    obtain ⟨sim, hget, -⟩ := hs.deref
    simp only [Handler.advance, hget] at hstep
    cases hstep
    obtain ⟨hsound, hfinish⟩ := sound_run (F := F) [s.object] false
      (s := ⟨⟨s.engine.sims.insert name { sim with locked := true }, s.engine.gen⟩, s.object⟩)
      (OrderedDict.get?_insert_self _ _ _) (by simp) sim.simDef.systemOutputs
    refine ⟨hsound, hfinish.trans ?_⟩
    simp only [finish, Engine.stepSimulation, hget, reply, runOutputs_systemOutputs, runOn_insert]
    rfl
  | setContains attr value =>
    refine sound_contains (fun hget => ?_) (fun sim hget => ?_) hstep
    · simp only [finish, Engine.setAttribute, hget]
    · exact ⟨Shared.linked_nil hget, rfl⟩
  | setAt attr value refs =>
    obtain ⟨sim, hget, -⟩ := hs.deref
    simp only [Handler.advance, hget] at hstep
    cases hstep
    have hrefs : ∀ ref ∈ s.object :: refs, ref = s.object :=
      List.forall_mem_cons.mpr ⟨rfl, hs.2⟩
    split_ifs with hlen
    · exact ⟨⟨hs.1, hrefs⟩, rfl⟩
    · obtain ⟨hsound, hfinish⟩ := sound_run (F := F) _ false hget hrefs
        [(⟨attr, .const value⟩, "Setting attribute failed.")]
      refine ⟨hsound, hfinish.trans ?_⟩
      simp only [finish, Engine.setAttribute, hget]
      rw [runOutputs, Fallible.forEach_singleton, reply_mapFault]
      rfl
  | evaluateOutput job =>
    obtain ⟨sim, hget, hderef⟩ := hs.deref
    simp only [Handler.advance, hderef] at hstep
    have hnext : ∀ v env, evaluateNode F job.output.1.toNode ⟨sim.store, s.engine.gen⟩ =
        (.ok v, env) →
        Sound name (.storeOutput job v) ⟨s.engine.register name sim env, s.object⟩ ∧
        finish F name (.storeOutput job v) ⟨s.engine.register name sim env, s.object⟩ =
          reply job.applied name { sim with store := env.store }
            (Fallible.mapFault (Fault.describe job.output.2)
              (onStore (assign F job.output.1.mutateAttr v)) >>= fun _ => runOutputs F job.later)
            ⟨s.engine.register name sim env, s.object⟩ := by
      refine fun v env _ => ⟨⟨by simp [Engine.register], hs.2⟩, ?_⟩
      simp only [finish, Engine.register, OrderedDict.get?_insert_self, Option.bind_some]
    obtain ⟨hsound, hfinish⟩ := sound_after hnext hstep
    refine ⟨hsound, hfinish.trans ?_⟩
    simp only [finish, hget, Option.bind_some]
    rw [← mapFault_mutateOp_bind]
    rfl
  | storeOutput job val =>
    obtain ⟨sim, hget, hderef⟩ := hs.deref
    simp only [Handler.advance, hderef] at hstep
    have hnext : ∀ (u : Unit) env, onStore (assign F job.output.1.mutateAttr val)
        ⟨sim.store, s.engine.gen⟩ = (.ok u, env) →
        Sound name (run job.refs job.applied job.later)
          ⟨s.engine.register name sim env, s.object⟩ ∧
        finish F name (run job.refs job.applied job.later)
          ⟨s.engine.register name sim env, s.object⟩ =
          reply job.applied name { sim with store := env.store } (runOutputs F job.later)
            ⟨s.engine.register name sim env, s.object⟩ := by
      exact fun _ env _ => sound_run _ _ (s := ⟨s.engine.register name sim env, s.object⟩)
        (OrderedDict.get?_insert_self _ _ _) hs.2 job.later
    obtain ⟨hsound, hfinish⟩ := sound_after hnext hstep
    exact ⟨hsound, hfinish.trans (by simp only [finish, hget, Option.bind_some])⟩
  | done reply => cases hstep; exact ⟨hs, rfl⟩
  | dangling => exact absurd hs id

/-- A request starts as its handler does. -/
theorem sound_handler {r : Request} {h : Handler} (hr : r.handler = some h)
    (hn : r.names name = true) (s : Shared S) :
    Sound name h s ∧ finish F name h s = Engine.step F s.engine r := by
  cases r with
  | applySimulation d => cases hr; exact ⟨(of_decide_eq_true hn : d.name = name), rfl⟩
  | dropSimulation n => cases hr; obtain rfl := of_decide_eq_true hn; exact ⟨trivial, rfl⟩
  | stepSimulation n => cases hr; obtain rfl := of_decide_eq_true hn; exact ⟨trivial, rfl⟩
  | setAttribute n a v => cases hr; obtain rfl := of_decide_eq_true hn; exact ⟨trivial, rfl⟩
  | getSimulation n => cases hr
  | listSimulation => cases hr
  | getAttribute n a => cases hr

/-- **A handler that runs alone** finds the simulation it works on at every step, and when it has
replied, it has answered the request as the service does. -/
theorem alone_spec {r : Request} {h h' : Handler} (hr : r.handler = some h)
    (hn : r.names name = true) {s s' : Shared S} {locals : List Handler}
    (hrun : Interleaving.Alone (advance F name) locals (h, s) (h', s')) :
    Sound name h' s' ∧
      ∀ o, h' = .done (some o) → Engine.step F s.engine r = some (o, s'.engine) := by
  obtain ⟨hsound, hfinish⟩ := sound_handler (F := F) hr hn s
  have hinv : Sound name h' s' ∧ finish F name h' s' = Engine.step F s.engine r := by
    refine hrun.invariant (P := fun p => Sound name p.1 p.2 ∧
      finish F name p.1 p.2 = Engine.step F s.engine r) ?_ ⟨hsound, hfinish⟩
    intro a t p hp ha
    obtain ⟨hs, hf⟩ := hp.1.advance ha
    exact ⟨hs, hf.trans hp.2⟩
  refine ⟨hinv.1, ?_⟩
  rintro o rfl
  exact hinv.2.symm

end Handler
end Bentobox
