import Bentobox.Sdk.Objects

/-!
# Aliases inside a branch

Outside a branch all variables record in the dictionaries of the plotter, so that a write
through one of them is seen through the others. The call of a branch makes a deep copy of each
captured variable by a `deepcopy` of its own, and each copy has outputs of its own: inside the
branch a variable sees what was written through itself.
-/
namespace Bentobox.Sdk.Plot

/-- The arguments of the call of a branch, `v=deepcopy(v)` for each captured variable. -/
def callArgs : List (String × Referent) → Dictionaries → List (String × Referent) × Dictionaries
  | [], d => ([], d)
  | (v, r) :: vars, d =>
    let copied := r.deepcopy d
    let rest := callArgs vars copied.2
    ((v, copied.1) :: rest.1, rest.2)

/-- The component that a path from a variable leads to. -/
def resolve (vars : List (String × Referent)) (v : String) (path : Option String) :
    Option GraphComponent :=
  (vars.lookup v).bind fun r => r.component? path

/-- What the branch is called with: every captured variable with its outputs in a cell of its
own, which starts with what the cell `o` contains. -/
structure Called (o : ℕ) (vars : List (String × Referent)) (d : Dictionaries) (k : String → ℕ)
    (branch : List (String × Referent)) (d₀ : Dictionaries) : Prop where
  component : ∀ v path, resolve branch v path =
    (resolve vars v path).map fun c => { c with outputs := k v }
  extends_ : d.outputs.Extends d₀.outputs
  copies : ∀ v path c, resolve vars v path = some c → d.outputs.next ≤ k v ∧
    k v < d₀.outputs.next ∧ d₀.outputs.cell (k v) = d.outputs.cell o
  distinct : ∀ v path c v' path' c', resolve vars v path = some c →
    resolve vars v' path' = some c' → k v = k v' → v = v'

/-- All components record their outputs in the cell `o`. -/
def RecordsIn (o : ℕ) (vars : List (String × Referent)) : Prop :=
  ∀ p ∈ vars, ∀ path c, p.2.component? path = some c → c.outputs = o

/-- The variables of a convert function, all of which record in the dictionaries of the plotter. -/
def plotted (inputs outputs : ℕ) (vars : List (String × Referent)) : List (String × Referent) :=
  vars.map fun p => (p.1, p.2.useInputOutputs inputs outputs)

theorem recordsIn_plotted (i o : ℕ) (vars : List (String × Referent)) :
    RecordsIn o (plotted i o vars) := by
  intro p hp path c hc
  obtain ⟨q, -, rfl⟩ := List.mem_map.mp hp
  rw [Referent.component?_useInputOutputs] at hc
  obtain ⟨c₀, -, rfl⟩ := Option.map_eq_some_iff.mp hc
  rfl

theorem resolve_cons (p : String × Referent) (vars : List (String × Referent)) (v : String)
    (path : Option String) : resolve (p :: vars) v path =
      if v = p.1 then p.2.component? path else resolve vars v path := by
  rw [resolve, List.lookup_cons]
  by_cases hv : v = p.1
  · simp [hv]
  · have hne : (v == p.1) = false := beq_eq_false_iff_ne.mpr hv
    rw [hne, if_neg hv, resolve]

/-- **Each argument is a copy of its own.** -/
theorem called_callArgs {vars : List (String × Referent)} {d : Dictionaries} {o : ℕ}
    (ho : o < d.outputs.next) (hvars : RecordsIn o vars) :
    ∃ k, Called o vars d k (callArgs vars d).1 (callArgs vars d).2 := by
  induction vars generalizing d with
  | nil =>
    refine ⟨fun _ => 0, fun v path => rfl, .refl _, ?_, ?_⟩
    · intro v path c hc
      cases hc
    · intro v path c v' path' c' hc
      cases hc
  | cons p vars ih =>
    have hp := hvars p List.mem_cons_self
    have halloc : p.2.Allocated d := fun path c hc => by rw [hp path c hc]; exact ho
    obtain ⟨σ, h⟩ := Referent.copied_deepcopy halloc
    obtain ⟨k, hk⟩ := ih (ho.trans_le h.extends_.next)
      fun q hq => hvars q (List.mem_cons_of_mem p hq)
    have hrest : ∀ v path c, resolve vars v path = some c →
        (p.2.deepcopy d).2.outputs.next ≤ k v := fun v path c hc => (hk.copies v path c hc).1
    have hfirst : ∀ path c, p.2.component? path = some c →
        d.outputs.next ≤ σ o ∧ σ o < (p.2.deepcopy d).2.outputs.next ∧
          (p.2.deepcopy d).2.outputs.cell (σ o) = d.outputs.cell o := by
      intro path c hc
      have hcopies := h.copies path c hc
      rwa [hp path c hc] at hcopies
    refine ⟨fun v => if v = p.1 then σ o else k v, ?_, h.extends_.trans hk.extends_, ?_, ?_⟩
    · intro v path
      rw [callArgs, resolve_cons, resolve_cons]
      by_cases hv : v = p.1
      · simp only [if_pos hv, h.component]
        refine Option.map_congr fun c hc => ?_
        rw [hp path c hc]
      · simp only [if_neg hv, hk.component]
    · intro v path c hc
      rw [resolve_cons] at hc
      by_cases hv : v = p.1
      · simp only [if_pos hv] at hc ⊢
        obtain ⟨hle, hlt, hcell⟩ := hfirst path c hc
        exact ⟨hle, hlt.trans_le hk.extends_.next, (hk.extends_.cell _ hlt).trans hcell⟩
      · simp only [if_neg hv] at hc ⊢
        obtain ⟨hle, hlt, hcell⟩ := hk.copies v path c hc
        exact ⟨h.extends_.next.trans hle, hlt, hcell.trans (h.extends_.cell o ho)⟩
    · intro v path c v' path' c' hc hc' heq
      rw [resolve_cons] at hc hc'
      by_cases hv : v = p.1 <;> by_cases hv' : v' = p.1
      · rw [hv, hv']
      · simp only [if_pos hv, if_neg hv'] at hc hc' heq
        have hlt := (hfirst path c hc).2.1
        have hle := hrest v' path' c' hc'
        omega
      · simp only [if_neg hv, if_pos hv'] at hc hc' heq
        have hlt := (hfirst path' c' hc').2.1
        have hle := hrest v path c hc
        omega
      · simp only [if_neg hv, if_neg hv'] at hc hc' heq
        exact hk.distinct v path c v' path' c' hc hc' heq

/-! ## What reads answer -/

section
variable {H : Type} (objects : H → Option Referent) (start : AttributeRef → Node)

/-- Every read answers with the expression that was assigned last, through any variable. -/
def ReadsLatest (as : List (Access H)) (os : List (Option Node)) : Prop :=
  ∀ pre a post ref, as = pre ++ a :: post → a.value = none → a.attrRef objects = some ref →
    os[pre.length]? = some (some (History.latest (Access.assigned objects ref) (start ref) pre))

/-- Whenever a variable reads an attribute, the last assignment to it went through this variable
or assigned what it has from itself. -/
def ReadsOwn [DecidableEq H] (as : List (Access H)) : Prop :=
  ∀ pre a post ref, as = pre ++ a :: post → a.value = none → a.attrRef objects = some ref →
    ∀ older w newer n, pre = older ++ w :: newer → w.assigned objects ref = some n →
      (∀ w' ∈ newer, w'.assigned objects ref = none) → w.handle = a.handle ∨
        n = History.latest (fun w => if w.handle = a.handle then w.assigned objects ref else none)
          (start ref) pre

end

/-- The variables of a list of captured variables. -/
abbrev referents (vars : List (String × Referent)) : String → Option Referent :=
  fun v => vars.lookup v

section
variable {vars branch : List (String × Referent)} {d d₀ d₁ : Dictionaries} {o : ℕ}
  {as : List (Access String)} {os : List (Option Node)}

/-- With one dictionary of outputs, reads answer with what was assigned last. -/
theorem readsLatest_of_recordsIn (hvars : RecordsIn o vars) (has : ∀ a ∈ as, a.Named)
    (hrun : Machine.run (step (referents vars)) d as = some (os, d₁)) :
    ReadsLatest (referents vars) (Recorder.definition (d.outputs.cell o)) as os := by
  have hcell : ∀ (a : Access String) c, a.object (referents vars) = some c → c.outputs = o := by
    intro a c hc
    obtain ⟨r, hr, hpath⟩ := Option.bind_eq_some_iff.mp hc
    obtain ⟨l₁, l₂, rfl, -⟩ := List.lookup_eq_some_iff.mp hr
    exact hvars (a.handle, r) (by simp) a.component c hpath
  intro pre a post ref hsplit hread href
  obtain ⟨c, hc, rfl⟩ := Option.map_eq_some_iff.mp href
  rw [getElem?_read hrun has hsplit hread hc, hcell a c hc]
  congr 2
  refine History.latest_congr fun w _ => ?_
  rw [Access.assignedIn]
  split
  next => rfl
  next hne =>
    rw [Access.assigned, Access.attrRef]
    cases hw : w.object (referents vars) with
    | none => simp
    | some c' => simp [hw, hcell w c' hw] at hne

/-- The variables of a branch stand for the same attributes as those that it was called with. -/
theorem Called.assigned {k : String → ℕ} (h : Called o vars d k branch d₀) (ref : AttributeRef)
    (a : Access String) :
    a.assigned (referents branch) ref = a.assigned (referents vars) ref := by
  have hattr : a.attrRef (referents branch) = a.attrRef (referents vars) := by
    have hobj : a.object (referents branch) =
        (a.object (referents vars)).map fun c => { c with outputs := k a.handle } :=
      h.component a.handle a.component
    rw [Access.attrRef, Access.attrRef, hobj, Option.map_map]
    rfl
  rw [Access.assigned, Access.assigned, hattr]

/-- A variable of a branch has what was assigned through it. -/
theorem Called.assignedIn {k : String → ℕ} (h : Called o vars d k branch d₀) {v : String}
    {path : Option String} {c : GraphComponent} (hc : resolve vars v path = some c)
    (ref : AttributeRef) (w : Access String) :
    w.assignedIn (referents branch) (k v) ref =
      if w.handle = v then w.assigned (referents vars) ref else none := by
  have hobj : w.object (referents branch) =
      (w.object (referents vars)).map fun c => { c with outputs := k w.handle } :=
    h.component w.handle w.component
  rw [Access.assignedIn, h.assigned, hobj]
  cases hw : w.object (referents vars) with
  | none =>
    have hnone : w.assigned (referents vars) ref = none := by
      simp [Access.assigned, Access.attrRef, hw]
    rw [hnone, ite_self, ite_self]
  | some c' =>
    have hiff : k w.handle = k v ↔ w.handle = v :=
      ⟨fun heq => h.distinct _ _ _ _ _ _ hw hc heq, fun heq => congrArg k heq⟩
    simp [hiff]

/-- **Aliases in a branch.** Outside a branch a read of an attribute through any variable answers
with what was assigned to it last through any of them. In the branch, which gets the variables as
its arguments, this is so exactly if a variable reads only what it has from itself. -/
theorem aliases_kept_iff (ho : o < d.outputs.next) (hvars : RecordsIn o vars)
    (hcall : callArgs vars d = (branch, d₀)) (has : ∀ a ∈ as, a.Named)
    (hrun : Machine.run (step (referents branch)) d₀ as = some (os, d₁)) :
    (∀ os' d', Machine.run (step (referents vars)) d as = some (os', d') →
      ReadsLatest (referents vars) (Recorder.definition (d.outputs.cell o)) as os') ∧
    (ReadsLatest (referents vars) (Recorder.definition (d.outputs.cell o)) as os ↔
      ReadsOwn (referents vars) (Recorder.definition (d.outputs.cell o)) as) := by
  refine ⟨fun os' d' h => readsLatest_of_recordsIn hvars has h, ?_⟩
  obtain ⟨k, h⟩ := called_callArgs ho hvars
  rw [hcall] at h
  have hread : ∀ pre a post ref, as = pre ++ a :: post → a.value = none →
      a.attrRef (referents vars) = some ref → os[pre.length]? = some (some (History.latest
        (fun w => if w.handle = a.handle then w.assigned (referents vars) ref else none)
        (Recorder.definition (d.outputs.cell o) ref) pre)) := by
    intro pre a post ref hsplit hvalue href
    obtain ⟨c, hc, rfl⟩ := Option.map_eq_some_iff.mp href
    have hobj : a.object (referents branch) = some { c with outputs := k a.handle } := by
      have hcomp := h.component a.handle a.component
      rw [show resolve vars a.handle a.component = some c from hc] at hcomp
      exact hcomp
    rw [getElem?_read hrun has hsplit hvalue hobj, (h.copies _ _ c hc).2.2]
    congr 2
    exact History.latest_congr fun w _ => h.assignedIn hc _ w
  refine forall_congr' fun pre => forall_congr' fun a => forall_congr' fun post =>
    forall_congr' fun ref => forall_congr' fun hsplit => forall_congr' fun hvalue =>
    forall_congr' fun href => ?_
  rw [hread pre a post ref hsplit hvalue href, Option.some.injEq, Option.some.injEq]
  exact History.latest_seen_iff fun w : Access String => w.handle = a.handle

end

/-! ## A car and its position -/

/-- The variable `car` holds an entity and `position` one of its components. -/
def aliased : List (String × Referent) :=
  plotted 0 0 [("car", .entity ⟨1, ⟨[("position", ⟨1, "position", 0, 0⟩)], by decide⟩, by decide⟩),
    ("position", .component ⟨1, "position", 0, 0⟩)]

/-- Write an attribute through the entity and read it through the variable given. -/
def writeThenRead (reader : String) (path : Option String) : List (Access String) :=
  [⟨"car", some "position", "x", some (.const ⟨none, .primitive (.int64 5)⟩)⟩,
    ⟨reader, path, "x", none⟩]

/-- The position does not see what the branch writes through the car. -/
theorem alias_misses_write :
    (Machine.run (step (referents aliased)) newDictionaries (writeThenRead "position" none)).map
        Prod.fst = some [none, some (.const ⟨none, .primitive (.int64 5)⟩)] ∧
    (Machine.run (step (referents (callArgs aliased newDictionaries).1))
        (callArgs aliased newDictionaries).2 (writeThenRead "position" none)).map
        Prod.fst = some [none, some (.retrieve ⟨1, "position", "x"⟩)] ∧
    ¬ ReadsLatest (referents aliased) (Recorder.definition (newDictionaries.outputs.cell 0))
      (writeThenRead "position" none) [none, some (.retrieve ⟨1, "position", "x"⟩)] := by
  refine ⟨by decide, by decide, fun h => ?_⟩
  have hread := h _ _ _ ⟨1, "position", "x"⟩
    (show writeThenRead "position" none = [_] ++ _ :: [] from rfl) rfl rfl
  exact absurd hread (by decide)

/-- The car itself does. -/
theorem aliases_kept_iff_car :
    ReadsLatest (referents aliased) (Recorder.definition (newDictionaries.outputs.cell 0))
        (writeThenRead "car" (some "position"))
        [none, some (.const ⟨none, .primitive (.int64 5)⟩)] ↔
      ReadsOwn (referents aliased) (Recorder.definition (newDictionaries.outputs.cell 0))
        (writeThenRead "car" (some "position")) := by
  have hnamed : ∀ a ∈ writeThenRead "car" (some "position"), a.Named := by
    simp [writeThenRead, Access.Named]
  exact (aliases_kept_iff (d := newDictionaries) (by decide) (recordsIn_plotted 0 0 _) rfl hnamed
    rfl).2

end Bentobox.Sdk.Plot
