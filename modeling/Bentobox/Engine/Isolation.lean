import Bentobox.Engine.Atomicity

/-!
# Simulations do not see each other

All that the handlers of one engine share is the registry and the random generator.
A request changes the registered simulation of its own name only, and a graph
without random operations has the same effect whatever the state of the generator
is. So the requests that name one simulation are answered as on an engine that gets
no others.
-/
namespace Bentobox

open AttributeStore SimulationStore

/-! ## Computations that do not use the generator -/

/-- The result and the store reached do not depend on the generator. -/
def IgnoresGenerator {S α : Type} (m : Eval S α) : Prop :=
  ∃ m' : Fallible S Fault α, Fallible.Refines (fun _ => True) Env.store m m'

namespace IgnoresGenerator
variable {S α β : Type}

theorem ofExcept (r : Except Fault α) : IgnoresGenerator (Fallible.ofExcept r : Eval S α) :=
  ⟨Fallible.ofExcept r, Fallible.Refines.ofExcept r⟩

theorem onStore (m : Fallible S Fault α) : IgnoresGenerator (onStore m) :=
  ⟨m, fun _ _ => ⟨rfl, rfl, trivial⟩⟩

theorem bind {m : Eval S α} {f : α → Eval S β} (hm : IgnoresGenerator m)
    (hf : ∀ a, IgnoresGenerator (f a)) : IgnoresGenerator (m >>= f) := by
  obtain ⟨m', hm'⟩ := hm
  choose f' hf' using hf
  exact ⟨m' >>= f', hm'.bind hf'⟩

theorem forEach {f : α → Eval S Unit} {l : List α} (hf : ∀ a ∈ l, IgnoresGenerator (f a)) :
    IgnoresGenerator (Fallible.forEach f l) := by
  induction l with
  | nil => exact ⟨pure (), Fallible.Refines.pure ()⟩
  | cons a l ih =>
    exact (hf a List.mem_cons_self).bind fun _ => ih fun b hb => hf b (List.mem_cons_of_mem a hb)

theorem mapFault {m : Eval S α} (hm : IgnoresGenerator m) (f : Fault → Fault) :
    IgnoresGenerator (Fallible.mapFault f m) := by
  obtain ⟨m', hm'⟩ := hm
  exact ⟨Fallible.mapFault f m', hm'.mapFault f⟩

/-- From any two states of the generator the results and the stores reached are the same. -/
theorem eq {m : Eval S α} (hm : IgnoresGenerator m) (s : S) (gen gen' : ℕ) :
    (m ⟨s, gen⟩).1 = (m ⟨s, gen'⟩).1 ∧ (m ⟨s, gen⟩).2.store = (m ⟨s, gen'⟩).2.store := by
  obtain ⟨m', h⟩ := hm
  obtain ⟨h₁, h₂, -⟩ := h ⟨s, gen⟩ trivial
  obtain ⟨h₁', h₂', -⟩ := h ⟨s, gen'⟩ trivial
  exact ⟨h₁.trans h₁'.symm, h₂.trans h₂'.symm⟩

end IgnoresGenerator

/-- No random operation occurs in the graph. -/
def Graph.randomFree (graph : Graph) : Prop := ∀ o ∈ graph.outputs, o.toNode.randomFree

/-- No random operation occurs in the graphs of the definition. -/
def SimulationDef.randomFree (d : SimulationDef) : Prop :=
  d.initGraph.randomFree ∧ ∀ system ∈ d.systems, system.graph.randomFree

section
variable (F : FloatOps) {S : Type} [AttributeStore S]

theorem evaluateNode_ignoresGenerator {n : Node} (hn : n.randomFree) :
    IgnoresGenerator (evaluateNode F n : Eval S Value) := by
  induction n with
  | notSet => exact .ofExcept _
  | const v => exact .ofExcept (.ok v)
  | retrieve r => exact .onStore _
  | mutate r n _ => exact .ofExcept _
  | switch c t f hc ht hf =>
    simp only [Node.randomFree, Bool.and_eq_true] at hn
    refine (hc hn.1.1).bind fun v => ?_
    rw [choose]
    split
    · exact ht hn.1.2
    · exact hf hn.2
    · exact .ofExcept _
  | unary op x hx => exact (hx hn).bind fun v => .ofExcept _
  | binary op x y hx hy =>
    simp only [Node.randomFree, Bool.and_eq_true] at hn
    exact (hx hn.1).bind fun v => (hy hn.2).bind fun w => .ofExcept _
  | random l u _ _ => cases hn

theorem mutateOp_ignoresGenerator {o : Mutate} (ho : o.toNode.randomFree) :
    IgnoresGenerator (mutateOp F o : Eval S Unit) :=
  (evaluateNode_ignoresGenerator F ho).bind fun _ => .onStore _

theorem runGraph_ignoresGenerator {graph : Graph} (hg : graph.randomFree) :
    IgnoresGenerator (runGraph F graph : Eval S Unit) :=
  .forEach fun o ho => mutateOp_ignoresGenerator F (hg o ho)

theorem Engine.runSystems_ignoresGenerator {systems : List SystemDef}
    (h : ∀ system ∈ systems, system.graph.randomFree) :
    IgnoresGenerator (runSystems F systems : Eval S Unit) :=
  .forEach fun system hs => (runGraph_ignoresGenerator F (h system hs)).mapFault _

end

/-! ## Requests that name a simulation -/

namespace Request

/-- The request names the simulation. -/
def names (name : String) : Request → Bool
  | applySimulation simulation => simulation.name = name
  | getSimulation n | dropSimulation n | stepSimulation n => n = name
  | getAttribute n _ | setAttribute n _ _ => n = name
  | listSimulation => false

/-- A request names at most one simulation. -/
theorem names_eq_false {r : Request} {name other : String} (h : r.names name = true)
    (hne : name ≠ other) : r.names other = false := by
  cases r with
  | listSimulation => rfl
  | _ => exact decide_eq_false fun heq => hne ((of_decide_eq_true h).symm.trans heq)

/-- The request brings no random operation. -/
def randomFree : Request → Prop
  | applySimulation simulation => simulation.randomFree
  | _ => True

end Request

namespace SimulationDef

/-- Numbering the systems changes no graph. -/
theorem graph_mem_setSystemIds {systems : List SystemDef} {system : SystemDef} {maxId : UInt32}
    (h : system ∈ setSystemIds maxId systems) : ∃ s ∈ systems, s.graph = system.graph := by
  induction systems generalizing maxId with
  | nil => cases h
  | cons s systems ih =>
    rw [setSystemIds] at h
    split_ifs at h
    all_goals
      rcases List.mem_cons.mp h with heq | h
      · exact ⟨s, List.mem_cons_self, by rw [heq]⟩
      · obtain ⟨s', hs', heq⟩ := ih h
        exact ⟨s', List.mem_cons_of_mem s hs', heq⟩

theorem randomFree.withIds {d : SimulationDef} (hd : d.randomFree) : d.withIds.randomFree := by
  refine ⟨hd.1, fun system hs => ?_⟩
  obtain ⟨s, hs, heq⟩ := graph_mem_setSystemIds hs
  rw [← heq]
  exact hd.2 s hs

end SimulationDef

namespace Engine
variable {F : FloatOps} {α : Type} {name : String}

/-- Two engines have the same simulation of a name, or both none; its systems are free of random
operations. -/
def Agree (name : String) (e e' : Engine Stores) : Prop :=
  e.sims.get? name = e'.sims.get? name ∧
    ∀ sim, e.sims.get? name = some sim → ∀ system ∈ sim.simDef.systems, system.graph.randomFree

/-- The same answer, in states that agree. -/
def SameAnswer (name : String) (x y : Response × Engine Stores) : Prop :=
  x.1 = y.1 ∧ Agree name x.2 y.2

/-- Running on the same simulation gives the same answer, whatever else the engines have. -/
theorem sameAnswer_runOn {m : Eval Stores α} (hm : IgnoresGenerator m)
    (sim : Simulation Stores) (hsim : ∀ system ∈ sim.simDef.systems, system.graph.randomFree)
    (onReturn : α → Response) (onCatch : Exception → Response) (e e' : Engine Stores) :
    Option.Rel (SameAnswer name) (answer onReturn onCatch (runOn m name sim e))
      (answer onReturn onCatch (runOn m name sim e')) := by
  obtain ⟨hres, hstore⟩ := hm.eq sim.store e.gen e'.gen
  have hagree : Agree name (runOn m name sim e).2 (runOn m name sim e').2 := by
    refine ⟨by simp [runOn, register, hstore], fun sim' h => ?_⟩
    simp only [runOn, register, OrderedDict.get?_insert_self] at h
    cases h
    exact hsim
  have hres' : (runOn m name sim e).1 = (runOn m name sim e').1 := hres
  unfold answer
  rw [hres']
  cases (runOn m name sim e').1 with
  | ok a => exact .some ⟨rfl, hagree⟩
  | error x =>
    cases x with
    | exception x => exact .some ⟨rfl, hagree⟩
    | undefined => exact .none

/-- **A request that names the simulation** has the same answer on engines that agree. -/
theorem Agree.step_names {e e' : Engine Stores} (h : Agree name e e') {r : Request}
    (hr : r.randomFree) (hn : r.names name = true) :
    Option.Rel (SameAnswer name) (step F e r) (step F e' r) := by
  obtain ⟨hget, hfree⟩ := h
  cases r with
  | applySimulation d =>
    obtain rfl : d.name = name := by simpa [Request.names] using hn
    simp only [step, applySimulation, ← hget]
    split_ifs
    · exact .some ⟨rfl, hget, hfree⟩
    · obtain ⟨stores, hc, -⟩ := construct_spec d
      rw [construct_stores hc]
      exact sameAnswer_runOn (runGraph_ignoresGenerator F hr.1) ⟨d.withIds, stores, false⟩
        hr.withIds.2 _ _ e e'
  | getSimulation n =>
    obtain rfl : n = name := by simpa [Request.names] using hn
    simp only [step, getSimulation, ← hget]
    cases e.sims.get? n <;> exact .some ⟨rfl, hget, hfree⟩
  | listSimulation => cases hn
  | dropSimulation n =>
    obtain rfl : n = name := by simpa [Request.names] using hn
    simp only [step, dropSimulation, ← hget]
    cases e.sims.get? n with
    | none => exact .some ⟨rfl, hget, hfree⟩
    | some sim =>
      refine .some ⟨rfl, by simp, fun sim' h => ?_⟩
      simp only [OrderedDict.get?_erase_self] at h
      cases h
  | stepSimulation n =>
    obtain rfl : n = name := by simpa [Request.names] using hn
    simp only [step, stepSimulation, ← hget]
    cases hs : e.sims.get? n with
    | none => exact .some ⟨rfl, hget, hfree⟩
    | some sim =>
      exact sameAnswer_runOn (runSystems_ignoresGenerator F (hfree sim hs))
        { sim with locked := true } (hfree sim hs) _ _ e e'
  | getAttribute n ref =>
    obtain rfl : n = name := by simpa [Request.names] using hn
    simp only [step, getAttribute, ← hget]
    cases hs : e.sims.get? n with
    | none => exact .some ⟨rfl, hget, hfree⟩
    | some sim => exact sameAnswer_runOn (.onStore _) sim (hfree sim hs) _ _ e e'
  | setAttribute n ref v =>
    obtain rfl : n = name := by simpa [Request.names] using hn
    simp only [step, setAttribute, ← hget]
    cases hs : e.sims.get? n with
    | none => exact .some ⟨rfl, hget, hfree⟩
    | some sim =>
      exact sameAnswer_runOn (mutateOp_ignoresGenerator F (o := ⟨ref, .const v⟩) rfl) sim
        (hfree sim hs) _ _ e e'

/-- **A request that does not name the simulation** leaves it. -/
theorem get?_step {e e' : Engine Stores} {r : Request} {o : Response}
    (hn : r.names name = false) (h : step F e r = some (o, e')) :
    e'.sims.get? name = e.sims.get? name := by
  have hne : ∀ {other}, decide (other = name) = false → name ≠ other := by
    intro other hd heq
    exact of_decide_eq_false hd heq.symm
  cases step_transition F h with
  | idle _ => rfl
  | created _ _ | stepped _ | retrieved _ | assigned _ =>
    exact OrderedDict.get?_insert_ne _ (hne hn) _
  | dropped _ => exact OrderedDict.get?_erase_ne _ (hne hn)

/-- **Isolation.** The requests of a run that name one simulation get the answers they get on a
fresh engine without the other requests, and a next request that names it is answered alike, or
crashes, on both. -/
theorem isolated {requests : List Request} (hfree : ∀ r ∈ requests, r.randomFree) {gen : ℕ}
    {responses : List Response} {e : Engine Stores}
    (hrun : run F (new gen) requests = some (responses, e)) (name : String) (gen' : ℕ) :
    ∃ e' : Engine Stores, run F (new gen') (requests.filter (Request.names name)) =
        some (Machine.answersTo (Request.names name) requests responses, e') ∧
      ∀ r : Request, r.randomFree → r.names name = true →
        (step F e r).map Prod.fst = (step F e' r).map Prod.fst := by
  have hstart : Agree name (new gen : Engine Stores) (new gen') :=
    ⟨rfl, fun sim h => by cases h⟩
  have hboth : ∀ (e e' : Engine Stores) (r : Request), Agree name e e' → r.randomFree →
      r.names name = true → Option.Rel (SameAnswer name) (step F e r) (step F e' r) :=
    fun e e' r h hr hn => h.step_names hr hn
  have hout : ∀ (e e' : Engine Stores) (r : Request) o e₁, Agree name e e' → r.randomFree →
      r.names name = false → step F e r = some (o, e₁) → Agree name e₁ e' := by
    intro e e' r o e₁ h _ hn hstep
    have hget := get?_step hn hstep
    exact ⟨hget.trans h.1, fun sim hs => h.2 sim (hget.symm.trans hs)⟩
  obtain ⟨e', hrun', hagree⟩ := Machine.run_filter hboth hout hstart hfree hrun
  refine ⟨e', hrun', fun r hr hn => ?_⟩
  have hrel := hboth e e' r hagree hr hn
  generalize step F e r = x at hrel ⊢
  generalize step F e' r = y at hrel ⊢
  cases hrel with
  | some h => exact congrArg some h.1
  | none => rfl

/-- The requests on one of two simulations, when the other one is stepped in between and fails. -/
theorem isolated_twoCells : ∃ responses e,
    run default (new 0 : Engine Stores) [.applySimulation (twoCells false),
      .applySimulation { twoCells false with name := "t" }, .stepSimulation "s",
      .getAttribute "t" ⟨1, "C", "a"⟩] = some (responses, e) ∧
    ∃ e' : Engine Stores, run default (new 7) [.applySimulation { twoCells false with name := "t" },
        .getAttribute "t" ⟨1, "C", "a"⟩] =
      some (Machine.answersTo (Request.names "t") [.applySimulation (twoCells false),
        .applySimulation { twoCells false with name := "t" }, .stepSimulation "s",
        .getAttribute "t" ⟨1, "C", "a"⟩] responses, e') := by
  have hfree : (twoCells false).randomFree := by
    refine ⟨fun _ ho => (nomatch ho), fun system hs => ?_⟩
    rw [List.mem_singleton.mp hs]
    intro o ho
    rcases List.mem_cons.mp ho with rfl | ho
    · rfl
    · rw [List.mem_singleton.mp ho]; rfl
  have hall : ∀ r ∈ [Request.applySimulation (twoCells false),
      .applySimulation { twoCells false with name := "t" }, .stepSimulation "s",
      .getAttribute "t" ⟨1, "C", "a"⟩], r.randomFree := by
    simp only [List.forall_mem_cons, List.not_mem_nil, false_implies, implies_true, and_true]
    exact ⟨hfree, hfree, trivial, trivial⟩
  obtain ⟨e', hrun, -⟩ := @isolated default _ hall 0 _ _ rfl "t" 7
  exact ⟨_, _, rfl, e', hrun⟩

end Engine
end Bentobox
