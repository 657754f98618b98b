import Bentobox.Engine.Handlers

/-!
# Interleaved requests

No handler takes a lock, so the steps of two of them may come in any order. Two steps
conflict when one puts a simulation into the registry or takes it out, when they touch
the same attribute and one of them stores it, when one locks the simulation that the
other looks at, or when both draw from the generator; other steps commute. Where all
conflicting steps come in one order, the requests are answered one after the other.
-/
namespace Bentobox

open AttributeStore SimulationStore Interleaving

/-! ## What a step touches -/

inductive Access
  | readSims
  | writeSims
  | readLocked
  | lock
  | read (attr : AttributeRef)
  | write (attr : AttributeRef)
  | draw
  deriving DecidableEq, Repr

/-- Two accesses whose order matters. -/
def Access.conflicts : Access → Access → Bool
  | readSims, writeSims | writeSims, readSims | writeSims, writeSims => true
  | readLocked, lock | lock, readLocked => true
  | read a, write b | write a, read b | write a, write b => a = b
  | draw, draw => true
  | _, _ => false

namespace Handler

/-- The accesses of the next step. -/
def accesses : Handler → List Access
  | applyContains _ | applyRefs _ | applyRespond => [.readSims]
  | applyLocked _ => [.readSims, .readLocked]
  | applyAssign _ => [.writeSims]
  | dropContains | stepContains | setContains _ _ | setAt _ _ _ => [.readSims]
  | dropErase => [.writeSims]
  | stepAt => [.readSims, .lock]
  | evaluateOutput job => .readSims :: job.output.1.toNode.retrieves.map .read ++
      if job.output.1.toNode.randomFree then [] else [.draw]
  | storeOutput job _ => [.readSims, .write job.output.1.mutateAttr]
  | done _ | dangling => []

/-- The next steps of two handlers do not conflict. -/
def Independent (a b : Handler) : Prop :=
  ∀ x ∈ a.accesses, ∀ y ∈ b.accesses, x.conflicts y = false

/-- The handler has come to its end. -/
def ended : Handler → Bool
  | done _ | dangling => true
  | _ => false

variable {F : FloatOps} {name : String}

theorem advance_ended {S : Type} [SimulationStore S] {a : Handler} (h : a.ended = true)
    (s : Shared S) : advance F name a s = some (a, s) := by
  cases a <;> first | rfl | cases h

theorem accesses_of_ended {a : Handler} (h : a.ended = true) : a.accesses = [] := by
  cases a <;> first | rfl | cases h

/-- Every step uses the registry, unless it changes it. -/
theorem mem_accesses {a : Handler} (h : a.ended = false) :
    .readSims ∈ a.accesses ∨ a.accesses = [.writeSims] := by
  cases a with
  | applyAssign d => exact .inr rfl
  | dropErase => exact .inr rfl
  | done o => cases h
  | dangling => cases h
  | _ => exact .inl (by simp [accesses])

theorem Independent.symm {a b : Handler} (h : Independent a b) : Independent b a := by
  intro x hx y hy
  have hyx := h y hy x hx
  cases x <;> cases y <;> simp_all [Access.conflicts, eq_comm]

/-- A step that changes the registry conflicts with every other one. -/
theorem Independent.readSims {a b : Handler} (h : Independent a b) (ha : a.ended = false)
    (hb : b.ended = false) : .readSims ∈ a.accesses ∧ .readSims ∈ b.accesses := by
  rcases mem_accesses ha with hra | hwa
  · rcases mem_accesses hb with hrb | hwb
    · exact ⟨hra, hrb⟩
    · have := h _ hra .writeSims (by rw [hwb]; simp)
      cases this
  · rcases mem_accesses hb with hrb | hwb
    · have := h .writeSims (by rw [hwa]; simp) _ hrb
      cases this
    · have := h .writeSims (by rw [hwa]; simp) .writeSims (by rw [hwb]; simp)
      cases this

end Handler

/-! ## Refinement of the steps -/

/-- Through a view of the stores. -/
def Shared.map {S T : Type} (view : S → T) (s : Shared S) : Shared T :=
  ⟨s.engine.map view, s.object⟩

namespace Handler
variable (F : FloatOps) {S T α : Type} {P : S → Prop} {view : S → T} {name : String}

theorem deref_map (s : Shared S) (refs : List ℕ) :
    (s.map view).deref name refs = (s.deref name refs).map (Simulation.map view) := by
  by_cases h : (refs.all fun ref => decide (ref = s.object)) = true
  · have hd : s.deref name refs = s.engine.sims.get? name := if_pos h
    rw [hd, ← Engine.get?_map]
    exact if_pos h
  · have hd : s.deref name refs = none := if_neg h
    rw [hd]
    exact if_neg h

/-- What ran on the store and on its view goes on alike. -/
theorem after_map {sim : Simulation S} {s : Shared S} {message : String} {next : α → Handler}
    {m : Eval S α} {m' : Eval T α}
    (h : Fallible.Refines (fun s => P s.store) (Env.map view) m m')
    (hsim : P sim.store) (hs : s.engine.All P) :
    (s.map view).after name (sim.map view) message next (m' ⟨view sim.store, s.engine.gen⟩) =
        (s.after name sim message next (m ⟨sim.store, s.engine.gen⟩)).map
          (fun r => (r.1, r.2.map view)) ∧
      ∀ h' s', s.after name sim message next (m ⟨sim.store, s.engine.gen⟩) = some (h', s') →
        s'.engine.All P := by
  obtain ⟨h₁, h₂, hP⟩ := h ⟨sim.store, s.engine.gen⟩ hsim
  have heq : m' ⟨view sim.store, s.engine.gen⟩ =
      ((m ⟨sim.store, s.engine.gen⟩).1, (m ⟨sim.store, s.engine.gen⟩).2.map view) :=
    Prod.ext h₁.symm h₂.symm
  rw [heq]
  refine ⟨?_, fun h' s' hafter => ?_⟩
  · simp only [Shared.after, Shared.map, Engine.register_map, Option.map_map]
    rfl
  · obtain ⟨a, -, hs'⟩ := Option.map_eq_some_iff.mp hafter
    cases hs'
    exact hs.insert hP name _

variable [SimulationStore S] [SimulationStore T]

/-- **Every atomic step is refined** along with the stores. -/
theorem advance_map (h : SimulationRefines P view) (a : Handler) {s : Shared S}
    (hs : s.engine.All P) :
    advance F name a (s.map view) = (advance F name a s).map (fun r => (r.1, r.2.map view)) ∧
      ∀ a' s', advance F name a s = some (a', s') → s'.engine.All P := by
  have hget : (s.map view).engine.sims.get? name =
      (s.engine.sims.get? name).map (Simulation.map view) := Engine.get?_map view s.engine name
  cases a with
  | applyContains d | dropContains | stepContains | setContains attr value =>
    refine ⟨?_, fun a' s' heq => by cases heq; exact hs⟩
    simp only [advance, hget, Option.isSome_map, Option.map_some]
  | applyLocked d | applyRespond =>
    simp only [advance, hget]
    cases s.engine.sims.get? name <;> exact ⟨rfl, fun a' s' heq => by cases heq; exact hs⟩
  | applyRefs refs | setAt attr value refs =>
    simp only [advance, hget]
    cases s.engine.sims.get? name <;> exact ⟨rfl, fun a' s' heq => by cases heq; exact hs⟩
  | applyAssign d =>
    simp only [advance, h.construct_eq]
    cases hc : (construct d : Except Fault (SimulationDef × S)) with
    | error x =>
      cases x with
      | exception x => exact ⟨rfl, fun a' s' heq => by cases heq; exact hs⟩
      | undefined => exact ⟨rfl, fun a' s' heq => by cases heq⟩
    | ok p =>
      obtain ⟨simDef, store⟩ := p
      refine ⟨?_, fun a' s' heq => by
        cases heq; exact hs.insert (h.constructed d simDef store hc) name _⟩
      simp only [Fallible.map_ok, Option.map_some, Shared.map, Engine.map, OrderedDict.map_insert]
      rfl
  | dropErase =>
    refine ⟨?_, fun a' s' heq => by cases heq; exact hs.erase name⟩
    simp only [advance, Shared.map, Engine.map, OrderedDict.map_erase, Option.map_some]
  | stepAt =>
    simp only [advance, hget]
    cases hsim : s.engine.sims.get? name with
    | none => exact ⟨rfl, fun a' s' heq => by cases heq; exact hs⟩
    | some sim =>
      have hP : P ({ sim with locked := true } : Simulation S).store := hs name sim hsim
      refine ⟨?_, fun a' s' heq => by cases heq; exact hs.insert hP name _⟩
      simp only [Option.map_some, Shared.map, Engine.map, OrderedDict.map_insert]
      rfl
  | evaluateOutput job =>
    simp only [advance, deref_map]
    cases hsim : s.deref name job.refs with
    | none => exact ⟨rfl, fun a' s' heq => by cases heq; exact hs⟩
    | some sim =>
      have hP : P sim.store := by
        rw [Shared.deref] at hsim
        split_ifs at hsim
        exact hs name sim hsim
      exact after_map (evaluateNode_refines F h.toStoreRefines job.output.1.toNode) hP hs
  | storeOutput job val =>
    simp only [advance, deref_map]
    cases hsim : s.deref name job.refs with
    | none => exact ⟨rfl, fun a' s' heq => by cases heq; exact hs⟩
    | some sim =>
      have hP : P sim.store := by
        rw [Shared.deref] at hsim
        split_ifs at hsim
        exact hs name sim hsim
      exact after_map (onStore_refines (h.assign F job.output.1.mutateAttr val)) hP hs
  | done o => exact ⟨rfl, fun a' s' heq => by cases heq; exact hs⟩
  | dangling => exact ⟨rfl, fun a' s' heq => by cases heq; exact hs⟩

end Handler

/-! ## What a step depends on and what it changes -/

section Evaluation
variable {F : FloatOps}

/-- Evaluation on two maps that agree on the attributes of the node. -/
theorem evaluateNode_agree {m m' : AttributeMap} {n : Node}
    (h : ∀ r ∈ n.retrieves, m.get r = m'.get r) :
    Fallible.Refines (fun s : Env AttributeMap => s.store = m) (fun s => ⟨m', s.gen⟩)
      (evaluateNode F n) (evaluateNode F n) := by
  induction n with
  | notSet => exact fun s hs => ⟨rfl, rfl, hs⟩
  | const v => exact fun s hs => ⟨rfl, rfl, hs⟩
  | retrieve r =>
    rintro s rfl
    exact ⟨h r (List.mem_singleton.mpr rfl), rfl, rfl⟩
  | mutate r n _ => exact fun s hs => ⟨rfl, rfl, hs⟩
  | switch c t f hc ht hf =>
    simp only [Node.retrieves, List.mem_append] at h
    exact (hc fun r hr => h r (.inl (.inl hr))).bind fun v =>
      choose_refines (ht fun r hr => h r (.inl (.inr hr))) (hf fun r hr => h r (.inr hr)) v
  | unary op x hx => exact (hx h).bind fun v => Fallible.Refines.ofExcept _
  | binary op x y hx hy =>
    simp only [Node.retrieves, List.mem_append] at h
    exact (hx fun r hr => h r (.inl hr)).bind fun v =>
      (hy fun r hr => h r (.inr hr)).bind fun w => Fallible.Refines.ofExcept _
  | random l u hl hu =>
    simp only [Node.retrieves, List.mem_append] at h
    exact (hl fun r hr => h r (.inl hr)).bind fun v =>
      (hu fun r hr => h r (.inr hr)).bind fun w => fun s hs => ⟨rfl, rfl, hs⟩

/-- A node without random operations leaves the generator. -/
theorem evaluateNode_keeps_gen {n : Node} (hn : n.randomFree = true) (gen : ℕ) :
    Fallible.Keeps (fun s : Env AttributeMap => s.gen = gen) (evaluateNode F n) := by
  refine evaluateNode_keeps_of F (fun _ _ h => h) fun h => ?_
  rw [hn] at h
  cases h

/-- Evaluation depends on the attributes of the node, and on the generator if it draws. -/
theorem evaluateNode_alike {m m' : AttributeMap} {n : Node} {gen gen' : ℕ}
    (h : ∀ r ∈ n.retrieves, m.get r = m'.get r) (hgen : n.randomFree = false → gen = gen') :
    evaluateNode F n (⟨m', gen'⟩ : Env AttributeMap) = ((evaluateNode F n ⟨m, gen⟩).1,
      ⟨m', if n.randomFree then gen'
        else (evaluateNode F n (⟨m, gen⟩ : Env AttributeMap)).2.gen⟩) := by
  have hagree := (evaluateNode_agree (F := F) h).eq (s := ⟨m, gen'⟩) rfl
  cases hn : n.randomFree with
  | false =>
    obtain rfl := hgen hn
    exact hagree
  | true =>
    have hres := ((evaluateNode_ignoresGenerator F hn).eq m gen gen').1
    have hkeep := evaluateNode_keeps_gen (F := F) hn gen' ⟨m, gen'⟩ rfl
    refine hagree.trans (Prod.ext hres.symm ?_)
    exact congrArg (Env.mk m') hkeep

end Evaluation

/-- What a step that leaves the registry does to the state. -/
inductive Change
  | none
  | lock
  | set (attr : AttributeRef) (val : Value)
  | draw (gen : ℕ)

/-- Change the registered simulation. -/
def Shared.update (name : String) (f : Simulation AttributeMap → Simulation AttributeMap)
    (s : Shared AttributeMap) : Shared AttributeMap :=
  match s.engine.sims.get? name with
  | some sim => ⟨⟨s.engine.sims.insert name (f sim), s.engine.gen⟩, s.object⟩
  | none => s

namespace Change

def apply (name : String) : Change → Shared AttributeMap → Shared AttributeMap
  | none, s => s
  | lock, s => s.update name fun sim => { sim with locked := true }
  | set attr val, s => s.update name fun sim => { sim with store := sim.store.set attr val }
  | draw gen, s => ⟨⟨s.engine.sims, gen⟩, s.object⟩

/-- The handler has the access that makes the change. -/
def MadeBy (a : Handler) : Change → Prop
  | none => True
  | lock => .lock ∈ a.accesses
  | set attr _ => .write attr ∈ a.accesses
  | draw _ => .draw ∈ a.accesses

end Change

/-- Two simulations that the next step of the handler cannot tell apart. -/
structure Simulation.Alike (a : Handler) (sim sim' : Simulation AttributeMap) : Prop where
  simDef : sim.simDef = sim'.simDef
  layout : sim.store.layout = sim'.store.layout
  locked : .readLocked ∈ a.accesses → sim.locked = sim'.locked
  value : ∀ attr, .read attr ∈ a.accesses → sim.store.value attr = sim'.store.value attr

/-- Two states that the next step of the handler cannot tell apart. -/
structure Shared.Alike (name : String) (a : Handler) (s t : Shared AttributeMap) : Prop where
  object : s.object = t.object
  sims : Option.Rel (Simulation.Alike a) (s.engine.sims.get? name) (t.engine.sims.get? name)
  gen : .draw ∈ a.accesses → s.engine.gen = t.engine.gen

namespace Shared
variable {name : String}

theorem Alike.refl (a : Handler) (s : Shared AttributeMap) : s.Alike name a s := by
  refine ⟨rfl, ?_, fun _ => rfl⟩
  cases s.engine.sims.get? name with
  | none => exact .none
  | some sim => exact .some ⟨rfl, rfl, fun _ => rfl, fun _ _ => rfl⟩

theorem Alike.symm {a : Handler} {s t : Shared AttributeMap} (h : s.Alike name a t) :
    t.Alike name a s := by
  refine ⟨h.object.symm, ?_, fun hdraw => (h.gen hdraw).symm⟩
  have hrel := h.sims
  generalize s.engine.sims.get? name = x at hrel ⊢
  generalize t.engine.sims.get? name = y at hrel ⊢
  cases hrel with
  | none => exact .none
  | some hsim =>
    exact .some ⟨hsim.simDef.symm, hsim.layout.symm, fun hread => (hsim.locked hread).symm,
      fun attr hread => (hsim.value attr hread).symm⟩

theorem Alike.absent {a : Handler} {s t : Shared AttributeMap} (h : s.Alike name a t)
    (hs : s.engine.sims.get? name = none) : t.engine.sims.get? name = none := by
  have hrel := h.sims
  rw [hs] at hrel
  cases ht : t.engine.sims.get? name with
  | none => rfl
  | some sim => rw [ht] at hrel; cases hrel

theorem Alike.found {a : Handler} {s t : Shared AttributeMap} (h : s.Alike name a t)
    {sim : Simulation AttributeMap} (hs : s.engine.sims.get? name = some sim) :
    ∃ sim', t.engine.sims.get? name = some sim' ∧ sim.Alike a sim' := by
  have hrel := h.sims
  rw [hs] at hrel
  cases ht : t.engine.sims.get? name with
  | none => rw [ht] at hrel; cases hrel
  | some sim' =>
    rw [ht] at hrel
    cases hrel with
    | some hsim => exact ⟨sim', rfl, hsim⟩

theorem Alike.deref_none {a : Handler} {s t : Shared AttributeMap} (h : s.Alike name a t)
    {refs : List ℕ} (hd : s.deref name refs = none) : t.deref name refs = none := by
  rw [Shared.deref, ← h.object]
  rw [Shared.deref] at hd
  split_ifs at hd ⊢
  · exact h.absent hd
  · rfl

theorem Alike.deref_some {a : Handler} {s t : Shared AttributeMap} (h : s.Alike name a t)
    {refs : List ℕ} {sim : Simulation AttributeMap} (hd : s.deref name refs = some sim) :
    ∃ sim', t.engine.sims.get? name = some sim' ∧ t.deref name refs = some sim' ∧
      sim.Alike a sim' := by
  rw [Shared.deref] at hd
  split_ifs at hd with hrefs
  obtain ⟨sim', hget, hsim⟩ := h.found hd
  refine ⟨sim', hget, ?_, hsim⟩
  rw [Shared.deref, ← h.object, if_pos hrefs, hget]

/-- Evaluating leaves the simulation as it was. -/
theorem register_reading {e : Engine AttributeMap} {sim : Simulation AttributeMap}
    (h : e.sims.get? name = some sim) (gen : ℕ) :
    e.register name sim ⟨sim.store, gen⟩ = ⟨e.sims, gen⟩ := by
  simp only [Engine.register, OrderedDict.insert_eq_self h]

end Shared

namespace Handler
variable {F : FloatOps} {name : String}

/-- A step that finds no simulation changes nothing. -/
theorem advance_absent {a a' : Handler} {s s' : Shared AttributeMap}
    (hread : .readSims ∈ a.accesses) (hs : s.engine.sims.get? name = none)
    (h : advance F name a s = some (a', s')) {t : Shared AttributeMap}
    (ht : t.engine.sims.get? name = none) : advance F name a t = some (a', t) := by
  have hderef : ∀ (u : Shared AttributeMap) refs, u.engine.sims.get? name = none →
      u.deref name refs = none := by
    intro u refs hu
    rw [Shared.deref, hu, ite_self]
  cases a with
  | applyAssign d | dropErase | done o | dangling => simp [accesses] at hread
  | evaluateOutput job | storeOutput job val =>
    simp only [advance, hderef s _ hs] at h
    cases h
    simp only [advance, hderef t _ ht]
  | _ =>
    simp only [advance, hs] at h
    cases h
    simp only [advance, ht]

/-- **What a step depends on.** Its change and the place it leads to are the same on all states
that its accesses cannot tell apart. -/
theorem advance_local {a a' : Handler} {s s' : Shared AttributeMap}
    (hread : .readSims ∈ a.accesses) (h : advance F name a s = some (a', s')) :
    ∃ c : Change, c.MadeBy a ∧ ∀ t, s.Alike name a t →
      advance F name a t = some (a', c.apply name t) := by
  cases hget : s.engine.sims.get? name with
  | none => exact ⟨.none, trivial, fun t ht => advance_absent hread hget h (ht.absent hget)⟩
  | some sim =>
    cases a with
    | applyAssign d | dropErase | done o | dangling => simp [accesses] at hread
    | applyContains d | dropContains | stepContains | setContains attr value =>
      simp only [advance, hget] at h
      cases h
      refine ⟨.none, trivial, fun t ht => ?_⟩
      obtain ⟨sim', hget', -⟩ := ht.found hget
      simp only [advance, hget']
      rfl
    | applyLocked d =>
      simp only [advance, hget] at h
      cases h
      refine ⟨.none, trivial, fun t ht => ?_⟩
      obtain ⟨sim', hget', hsim⟩ := ht.found hget
      simp only [advance, hget', hsim.locked (by simp [accesses])]
      rfl
    | applyRefs refs =>
      simp only [advance, hget] at h
      cases h
      refine ⟨.none, trivial, fun t ht => ?_⟩
      obtain ⟨sim', hget', hsim⟩ := ht.found hget
      simp only [advance, hget', hsim.simDef, ht.object]
      rfl
    | applyRespond =>
      simp only [advance, hget] at h
      cases h
      refine ⟨.none, trivial, fun t ht => ?_⟩
      obtain ⟨sim', hget', hsim⟩ := ht.found hget
      simp only [advance, hget', hsim.simDef]
      rfl
    | stepAt =>
      simp only [advance, hget] at h
      cases h
      refine ⟨.lock, by simp [Change.MadeBy, accesses], fun t ht => ?_⟩
      obtain ⟨sim', hget', hsim⟩ := ht.found hget
      simp only [advance, hget', hsim.simDef, ht.object, Change.apply, Shared.update]
    | setAt attr value refs =>
      simp only [advance, hget] at h
      cases h
      refine ⟨.none, trivial, fun t ht => ?_⟩
      obtain ⟨sim', hget', -⟩ := ht.found hget
      simp only [advance, hget', ht.object]
      rfl
    | evaluateOutput job =>
      cases hd : s.deref name job.refs with
      | none =>
        simp only [advance, hd] at h
        cases h
        refine ⟨.none, trivial, fun t ht => ?_⟩
        simp only [advance, ht.deref_none hd]
        rfl
      | some sim =>
        simp only [advance, hd, Shared.after, Option.map_eq_some_iff] at h
        obtain ⟨a'', hcaught, heq⟩ := h
        cases heq
        refine ⟨if job.output.1.toNode.randomFree then .none else .draw (evaluateNode F
          job.output.1.toNode (⟨sim.store, s.engine.gen⟩ : Env AttributeMap)).2.gen, ?_,
          fun t ht => ?_⟩
        · cases hn : job.output.1.toNode.randomFree with
          | true => trivial
          | false => simp [Change.MadeBy, accesses, hn]
        obtain ⟨sim', hget', hd', hsim⟩ := ht.deref_some hd
        have hvalues : ∀ r ∈ job.output.1.toNode.retrieves, sim.store.get r = sim'.store.get r := by
          intro r hr
          have hread : Access.read r ∈ accesses (.evaluateOutput job) := by
            simp [accesses, hr]
          rw [AttributeMap.get, AttributeMap.get, hsim.layout, hsim.value r hread]
        have hgen : job.output.1.toNode.randomFree = false → s.engine.gen = t.engine.gen :=
          fun hn => ht.gen (by simp [accesses, hn])
        simp only [advance, hd', Shared.after, evaluateNode_alike hvalues hgen, hcaught,
          Option.map_some, Shared.register_reading hget']
        split_ifs <;> rfl
    | storeOutput job val =>
      cases hd : s.deref name job.refs with
      | none =>
        simp only [advance, hd] at h
        cases h
        refine ⟨.none, trivial, fun t ht => ?_⟩
        simp only [advance, ht.deref_none hd]
        rfl
      | some sim =>
        simp only [advance, hd, Shared.after, Option.map_eq_some_iff] at h
        obtain ⟨a'', hcaught, heq⟩ := h
        cases heq
        have hconv : ∀ {t : Shared AttributeMap}, s.Alike name (.storeOutput job val) t →
            ∃ sim', t.engine.sims.get? name = some sim' ∧ t.deref name job.refs = some sim' ∧
              sim'.store.converted F job.output.1.mutateAttr val =
                sim.store.converted F job.output.1.mutateAttr val := by
          intro t ht
          obtain ⟨sim', hget', hd', hsim⟩ := ht.deref_some hd
          refine ⟨sim', hget', hd', ?_⟩
          rw [AttributeMap.converted, AttributeMap.converted, hsim.layout]
        rw [AttributeMap.onStore_assign] at hcaught
        cases hw : sim.store.converted F job.output.1.mutateAttr val with
        | error x =>
          refine ⟨.none, trivial, fun t ht => ?_⟩
          obtain ⟨sim', hget', hd', hw'⟩ := hconv ht
          rw [hw] at hw' hcaught
          simp only [advance, hd', Shared.after, AttributeMap.onStore_assign, hw', hcaught,
            Option.map_some, Shared.register_reading hget']
          rfl
        | ok w =>
          refine ⟨.set job.output.1.mutateAttr w, by simp [Change.MadeBy, accesses], fun t ht => ?_⟩
          obtain ⟨sim', hget', hd', hw'⟩ := hconv ht
          rw [hw] at hw' hcaught
          simp only [advance, hd', Shared.after, AttributeMap.onStore_assign, hw', hcaught,
            Option.map_some, Change.apply, Shared.update, hget']
          rfl

end Handler

/-! ## Independent steps commute -/

/-- Writes to different attributes commute. -/
theorem AttributeMap.set_comm (m : AttributeMap) {a b : AttributeRef} (h : a ≠ b) (v w : Value) :
    (m.set a v).set b w = (m.set b w).set a v := by
  refine congrArg (AttributeMap.mk m.layout) (funext fun r => ?_)
  by_cases ha : r = a
  · subst ha
    rw [if_neg h, if_pos rfl]
    exact if_pos rfl
  · rw [if_neg ha]
    by_cases hb : r = b
    · rw [if_pos hb]; exact (if_pos hb).symm
    · rw [if_neg hb]
      exact (if_neg ha).trans (if_neg hb).symm

namespace Shared
variable {name : String}

theorem update_update (f g : Simulation AttributeMap → Simulation AttributeMap)
    (s : Shared AttributeMap) :
    (s.update name f).update name g = s.update name fun sim => g (f sim) := by
  unfold update
  cases hs : s.engine.sims.get? name with
  | none => simp only [hs]
  | some sim => simp only [OrderedDict.get?_insert_self, OrderedDict.insert_insert]

theorem get?_update (f : Simulation AttributeMap → Simulation AttributeMap)
    (s : Shared AttributeMap) :
    (s.update name f).engine.sims.get? name = (s.engine.sims.get? name).map f := by
  rw [update]
  cases hs : s.engine.sims.get? name with
  | none => simp only [hs, Option.map_none]
  | some sim => simp only [OrderedDict.get?_insert_self, Option.map_some]

theorem object_update (f : Simulation AttributeMap → Simulation AttributeMap)
    (s : Shared AttributeMap) : (s.update name f).object = s.object := by
  rw [update]
  split <;> rfl

theorem gen_update (f : Simulation AttributeMap → Simulation AttributeMap)
    (s : Shared AttributeMap) : (s.update name f).engine.gen = s.engine.gen := by
  rw [update]
  split <;> rfl

theorem update_draw (f : Simulation AttributeMap → Simulation AttributeMap)
    (s : Shared AttributeMap) (gen : ℕ) :
    Shared.update name f ⟨⟨s.engine.sims, gen⟩, s.object⟩ =
      ⟨⟨(s.update name f).engine.sims, gen⟩, (s.update name f).object⟩ := by
  unfold update
  cases s.engine.sims.get? name <;> rfl

/-- A change to the simulation that the handler cannot see. -/
theorem alike_update {a : Handler} {f : Simulation AttributeMap → Simulation AttributeMap}
    (s : Shared AttributeMap) (h : ∀ sim, Simulation.Alike a sim (f sim)) :
    s.Alike name a (s.update name f) := by
  refine ⟨(object_update f s).symm, ?_, fun _ => (gen_update f s).symm⟩
  rw [get?_update]
  cases s.engine.sims.get? name with
  | none => exact .none
  | some sim => exact .some (h sim)

end Shared

namespace Change
variable {name : String} {a b : Handler}

/-- The change of a step is not seen by an independent one. -/
theorem MadeBy.alike {c : Change} (hc : c.MadeBy b) (h : b.Independent a)
    (s : Shared AttributeMap) : s.Alike name a (c.apply name s) := by
  cases c with
  | none => exact .refl a s
  | draw gen =>
    have halike : s.Alike name a s := .refl a s
    refine ⟨rfl, halike.sims, fun hdraw => ?_⟩
    have := h _ hc _ hdraw
    cases this
  | lock =>
    refine Shared.alike_update s fun sim => ⟨rfl, rfl, fun hread => ?_, fun _ _ => rfl⟩
    have := h _ hc _ hread
    cases this
  | set attr val =>
    refine Shared.alike_update s fun sim => ⟨rfl, rfl, fun _ => rfl, fun r hread => ?_⟩
    have hne : attr ≠ r := by
      rintro rfl
      have := h _ hc _ hread
      simp [Access.conflicts] at this
    exact (AttributeMap.value_set_ne _ hne.symm _).symm

/-- The changes of independent steps commute. -/
theorem MadeBy.comm {c d : Change} (hc : c.MadeBy b) (hd : d.MadeBy a) (h : b.Independent a)
    (s : Shared AttributeMap) : d.apply name (c.apply name s) = c.apply name (d.apply name s) := by
  cases c with
  | none => rfl
  | draw gen =>
    cases d with
    | none => rfl
    | draw gen' =>
      have := h _ hc _ hd
      cases this
    | lock => exact Shared.update_draw _ s gen
    | set attr' val' => exact Shared.update_draw _ s gen
  | lock =>
    cases d with
    | none => rfl
    | draw gen' => exact (Shared.update_draw _ s gen').symm
    | lock => rfl
    | set attr' val' => simp only [apply, Shared.update_update]
  | set attr val =>
    cases d with
    | none => rfl
    | draw gen' => exact (Shared.update_draw _ s gen').symm
    | lock => simp only [apply, Shared.update_update]
    | set attr' val' =>
      have hne : attr ≠ attr' := by
        rintro rfl
        have := h _ hc _ hd
        simp [Access.conflicts] at this
      refine (Shared.update_update _ _ s).trans (Eq.trans ?_ (Shared.update_update _ _ s).symm)
      simp only [AttributeMap.set_comm _ hne]

end Change

namespace Handler
variable {F : FloatOps} {name : String}

/-- **Independent steps commute.** -/
theorem advance_commutes :
    Commutes (advance F name : Handler → Shared AttributeMap → _) Independent := by
  intro a b a' b' s s₁ s₂ h hb ha
  cases hae : a.ended with
  | true =>
    rw [advance_ended hae] at ha
    cases ha
    exact ⟨s, advance_ended hae s, hb⟩
  | false =>
    cases hbe : b.ended with
    | true =>
      rw [advance_ended hbe] at hb
      cases hb
      exact ⟨s₂, ha, advance_ended hbe s₂⟩
    | false =>
      obtain ⟨hrb, hra⟩ := h.readSims hbe hae
      obtain ⟨c, hc, hlocalb⟩ := advance_local hrb hb
      have hs₁ : s₁ = c.apply name s := by
        have hself := hlocalb s (.refl b s)
        rw [hb] at hself
        cases hself
        rfl
      subst hs₁
      obtain ⟨d, hd, hlocala⟩ := advance_local hra ha
      have hs₂ : s₂ = d.apply name (c.apply name s) := by
        have hself := hlocala _ (.refl a _)
        rw [ha] at hself
        cases hself
        rfl
      have haa : advance F name a s = some (a', d.apply name s) := hlocala s (hc.alike h s).symm
      refine ⟨d.apply name s, haa, ?_⟩
      rw [hlocalb _ (hd.alike h.symm s), hs₂, hc.comm hd h]

end Handler
end Bentobox
