import Mathlib.Data.List.Basic

/-!
# Runs of a machine that answers inputs

A machine takes an input in a state, answers it and moves on; `none` is a crash,
after which there is no state. This file has the two rules for whole runs: an
invariant that every step keeps holds at the end, and a machine that is simulated
step by step by an abstract one gives the same answers.
-/
namespace Bentobox.Machine

variable {σ τ ι ω : Type}

/-- Feed the inputs in order and collect the answers. -/
def run (step : σ → ι → Option (ω × σ)) : σ → List ι → Option (List ω × σ)
  | s, [] => some ([], s)
  | s, i :: is =>
    match step s i with
    | none => none
    | some (o, s') => (run step s' is).map fun r => (o :: r.1, r.2)

variable {step : σ → ι → Option (ω × σ)}

@[simp] theorem run_nil (s : σ) : run step s [] = some ([], s) := rfl

theorem run_cons_eq_some_iff {s s'' : σ} {i : ι} {is : List ι} {os : List ω} :
    run step s (i :: is) = some (os, s'') ↔ ∃ o s' os', step s i = some (o, s') ∧
      run step s' is = some (os', s'') ∧ os = o :: os' := by
  rw [run]
  rcases step s i with _ | ⟨o, s'⟩
  · simp
  · simp only [Option.map_eq_some_iff, Prod.mk.injEq, Prod.exists, Option.some.injEq]
    constructor
    · rintro ⟨os', t, hr, rfl, rfl⟩; exact ⟨o, s', os', ⟨rfl, rfl⟩, hr, rfl⟩
    · rintro ⟨_, _, os', ⟨rfl, rfl⟩, hr, rfl⟩; exact ⟨os', s'', hr, rfl, rfl⟩

theorem run_append_eq_some_iff {s s'' : σ} {is js : List ι} {os : List ω} :
    run step s (is ++ js) = some (os, s'') ↔ ∃ os₁ s' os₂, run step s is = some (os₁, s') ∧
      run step s' js = some (os₂, s'') ∧ os = os₁ ++ os₂ := by
  induction is generalizing s os with
  | nil => simp
  | cons i is ih =>
    rw [List.cons_append, run_cons_eq_some_iff]
    constructor
    · rintro ⟨o, s₁, os', h₁, h₂, rfl⟩
      obtain ⟨os₁, s', os₂, hl, hr, rfl⟩ := ih.mp h₂
      exact ⟨o :: os₁, s', os₂, run_cons_eq_some_iff.mpr ⟨o, s₁, os₁, h₁, hl, rfl⟩, hr, rfl⟩
    · rintro ⟨os₁, s', os₂, hl, hr, rfl⟩
      obtain ⟨o, s₁, os₁', h₁, h₂, rfl⟩ := run_cons_eq_some_iff.mp hl
      exact ⟨o, s₁, os₁' ++ os₂, h₁, ih.mpr ⟨os₁', s', os₂, h₂, hr, rfl⟩, rfl⟩

/-- A machine that does not crash runs through. -/
theorem exists_run (h : ∀ s i, ∃ o s', step s i = some (o, s')) (s : σ) (is : List ι) :
    ∃ os s', run step s is = some (os, s') := by
  induction is generalizing s with
  | nil => exact ⟨[], s, rfl⟩
  | cons i is ih =>
    obtain ⟨o, s₁, hstep⟩ := h s i
    obtain ⟨os, s', hrest⟩ := ih s₁
    exact ⟨o :: os, s', run_cons_eq_some_iff.mpr ⟨o, s₁, os, hstep, hrest, rfl⟩⟩

theorem length_of_run {s s' : σ} {is : List ι} {os : List ω}
    (h : run step s is = some (os, s')) : os.length = is.length := by
  induction is generalizing s os with
  | nil =>
    cases h
    rfl
  | cons i is ih =>
    obtain ⟨o, s₁, os', -, hrest, rfl⟩ := run_cons_eq_some_iff.mp h
    rw [List.length_cons, List.length_cons, ih hrest]

/-- The answer to an input is the one of the step from the state before it. -/
theorem getElem?_of_run {s s' : σ} {pre post : List ι} {i : ι} {os : List ω}
    (h : run step s (pre ++ i :: post) = some (os, s')) : ∃ os₁ s₁ o s₂,
      run step s pre = some (os₁, s₁) ∧ step s₁ i = some (o, s₂) ∧ os[pre.length]? = some o := by
  obtain ⟨os₁, s₁, os₂, hpre, hpost, rfl⟩ := run_append_eq_some_iff.mp h
  obtain ⟨o, s₂, os₃, hi, -, rfl⟩ := run_cons_eq_some_iff.mp hpost
  refine ⟨os₁, s₁, o, s₂, hpre, hi, ?_⟩
  rw [← length_of_run hpre]
  simp

/-- Every step of the run, taken from the state reached before it, meets `C`. -/
def Along (step : σ → ι → Option (ω × σ)) (C : σ → ι → Prop) : σ → List ι → Prop
  | _, [] => True
  | s, i :: is => C s i ∧ ∀ o s', step s i = some (o, s') → Along step C s' is

/-- What each step that meets `C` keeps, a run of such steps keeps. -/
theorem invariant_of_along {C : σ → ι → Prop} {P : σ → Prop}
    (hstep : ∀ s i o s', P s → C s i → step s i = some (o, s') → P s') {s s' : σ} {is : List ι}
    {os : List ω} (hs : P s) (hC : Along step C s is) (hr : run step s is = some (os, s')) :
    P s' := by
  induction is generalizing s os with
  | nil => cases hr; exact hs
  | cons i is ih =>
    obtain ⟨o, s₁, os', h₁, h₂, rfl⟩ := run_cons_eq_some_iff.mp hr
    exact ih (hstep s i o s₁ hs hC.1 h₁) (hC.2 o s₁ h₁) h₂

/-- What every step keeps, every run keeps. -/
theorem invariant {P : σ → Prop} (hstep : ∀ s i o s', P s → step s i = some (o, s') → P s')
    {s s' : σ} {is : List ι} {os : List ω} (hs : P s) (hr : run step s is = some (os, s')) :
    P s' := by
  induction is generalizing s os with
  | nil => cases hr; exact hs
  | cons i is ih =>
    obtain ⟨o, s₁, os', h₁, h₂, rfl⟩ := run_cons_eq_some_iff.mp hr
    exact ih (hstep s i o s₁ hs h₁) h₂

/-- A step-by-step simulation through `view` gives every run of the machine as a run of the
abstract machine with the same answers. -/
theorem run_view {step' : τ → ι → Option (ω × τ)} {P : σ → Prop} {view : σ → τ}
    (hview : ∀ s i, P s → step' (view s) i = (step s i).map fun r => (r.1, view r.2))
    (hkeep : ∀ s i o s', P s → step s i = some (o, s') → P s') {s : σ} (hs : P s)
    (is : List ι) : run step' (view s) is = (run step s is).map fun r => (r.1, view r.2) := by
  induction is generalizing s with
  | nil => rfl
  | cons i is ih =>
    rw [run, run, hview s i hs]
    rcases h : step s i with _ | ⟨o, s'⟩
    · rfl
    · simp only [Option.map_some, ih (hkeep s i o s' hs h), Option.map_map]
      rfl

/-- Machines that take the same steps on the inputs have the same run. -/
theorem run_congr {step' : σ → ι → Option (ω × σ)} {is : List ι}
    (h : ∀ s, ∀ i ∈ is, step s i = step' s i) (s : σ) : run step s is = run step' s is := by
  induction is generalizing s with
  | nil => rfl
  | cons i is ih =>
    have his : ∀ s, run step s is = run step' s is :=
      ih fun t j hj => h t j (List.mem_cons_of_mem i hj)
    simp only [run, h s i List.mem_cons_self, his]

/-- What every step meets, every run meets. -/
theorem along_of_forall {C : σ → ι → Prop} (h : ∀ s i, C s i) (s : σ) (is : List ι) :
    Along step C s is := by
  induction is generalizing s with
  | nil => trivial
  | cons i is ih => exact ⟨h s i, fun _ s' _ => ih s'⟩

/-- What the steps from the states of an invariant meet, every run meets. -/
theorem along_of_invariant {C : σ → ι → Prop} {P : σ → Prop} {Q : ι → Prop}
    (hkeep : ∀ s i o s', P s → Q i → step s i = some (o, s') → P s')
    (hC : ∀ s i, P s → Q i → C s i) {s : σ} {is : List ι} (hs : P s) (his : ∀ i ∈ is, Q i) :
    Along step C s is := by
  induction is generalizing s with
  | nil => trivial
  | cons i is ih =>
    obtain ⟨hi, his⟩ := List.forall_mem_cons.mp his
    exact ⟨hC s i hs hi, fun o s' h => ih (hkeep s i o s' hs hi h) his⟩

/-- What the steps of some inputs meet in every state, every run on such inputs meets. -/
theorem along_of_mem {C : σ → ι → Prop} {is : List ι} (h : ∀ s, ∀ i ∈ is, C s i) (s : σ) :
    Along step C s is :=
  along_of_invariant (P := fun _ => True) (fun _ _ _ _ _ _ _ => trivial) (fun s i _ hi => h s i hi)
    trivial fun _ hi => hi

/-- The answers given to the inputs that meet `p`. -/
def answersTo (p : ι → Bool) (is : List ι) (os : List ω) : List ω :=
  ((is.zip os).filter fun r => p r.1).map Prod.snd

/-- Leaving inputs out changes no answer to the others, when a relation between the states of
the two runs is kept by the inputs of both and by those left out. -/
theorem run_filter {R : σ → σ → Prop} {p : ι → Bool} {Q : ι → Prop}
    (hboth : ∀ s t i, R s t → Q i → p i = true →
      Option.Rel (fun x y => x.1 = y.1 ∧ R x.2 y.2) (step s i) (step t i))
    (hout : ∀ s t i o s', R s t → Q i → p i = false → step s i = some (o, s') → R s' t)
    {s s' t : σ} {is : List ι} {os : List ω} (hR : R s t) (hQ : ∀ i ∈ is, Q i)
    (hr : run step s is = some (os, s')) :
    ∃ t', run step t (is.filter p) = some (answersTo p is os, t') ∧ R s' t' := by
  induction is generalizing s t os with
  | nil =>
    cases hr
    exact ⟨t, rfl, hR⟩
  | cons i is ih =>
    obtain ⟨o, s₁, os', hstep, hrest, rfl⟩ := run_cons_eq_some_iff.mp hr
    have hQi : Q i := hQ i List.mem_cons_self
    have hQis : ∀ j ∈ is, Q j := fun j hj => hQ j (List.mem_cons_of_mem i hj)
    cases hp : p i with
    | false =>
      obtain ⟨t', ht, hR'⟩ := ih (hout s t i o s₁ hR hQi hp hstep) hQis hrest
      refine ⟨t', ?_, hR'⟩
      rw [List.filter_cons_of_neg (by simp [hp]), ht]
      simp [answersTo, hp]
    | true =>
      have hrel := hboth s t i hR hQi hp
      rw [hstep] at hrel
      rcases htstep : step t i with _ | ⟨o', t₁⟩
      · rw [htstep] at hrel; cases hrel
      · rw [htstep] at hrel
        cases hrel with
        | some hpair =>
          obtain ⟨rfl, hR₁⟩ := hpair
          obtain ⟨t', ht, hR'⟩ := ih hR₁ hQis hrest
          refine ⟨t', ?_, hR'⟩
          rw [List.filter_cons_of_pos hp, run_cons_eq_some_iff]
          exact ⟨o, t₁, _, htstep, ht, by simp [answersTo, hp]⟩

/-- A machine that takes only some of the inputs, as its own ones, and answers those alike. The
steps of its run may be known to meet `C`. -/
theorem run_project {κ υ : Type} {step' : τ → κ → Option (υ × τ)} {R : σ → τ → Prop}
    {f : ι → Option κ} {g : ω → Option υ} {C : τ → κ → Prop} {Q : ι → Prop}
    (htaken : ∀ s t i k o s' u t', R s t → Q i → f i = some k → C t k →
      step s i = some (o, s') → step' t k = some (u, t') → g o = some u ∧ R s' t')
    (hother : ∀ s t i o s', R s t → Q i → f i = none → step s i = some (o, s') →
      g o = none ∧ R s' t)
    {s s' : σ} {t t' : τ} {is : List ι} {os : List ω} {us : List υ} (hR : R s t)
    (hQ : ∀ i ∈ is, Q i) (hr : run step s is = some (os, s'))
    (hr' : run step' t (is.filterMap f) = some (us, t'))
    (hC : Along step' C t (is.filterMap f)) : os.filterMap g = us ∧ R s' t' := by
  induction is generalizing s t os us with
  | nil =>
    cases hr
    cases hr'
    exact ⟨rfl, hR⟩
  | cons i is ih =>
    obtain ⟨o, s₁, os', hstep, hrest, rfl⟩ := run_cons_eq_some_iff.mp hr
    obtain ⟨hQi, hQis⟩ := List.forall_mem_cons.mp hQ
    cases hf : f i with
    | none =>
      rw [List.filterMap_cons_none hf] at hr' hC
      obtain ⟨ho, hR₁⟩ := hother s t i o s₁ hR hQi hf hstep
      rw [List.filterMap_cons_none ho]
      exact ih hR₁ hQis hrest hr' hC
    | some k =>
      rw [List.filterMap_cons_some hf] at hr' hC
      obtain ⟨u, t₁, us', hstep', hrest', rfl⟩ := run_cons_eq_some_iff.mp hr'
      obtain ⟨ho, hR₁⟩ := htaken s t i k o s₁ u t₁ hR hQi hf hC.1 hstep hstep'
      rw [List.filterMap_cons_some ho]
      obtain ⟨rfl, hR'⟩ := ih hR₁ hQis hrest hrest' (hC.2 u t₁ hstep')
      exact ⟨rfl, hR'⟩

/-- When the steps out of good states lead to good states exactly if they meet `C`, all states
of a run are good exactly if all its steps meet `C`. The proof may carry an invariant `I`, and
the steps of the run may be known to meet `D`. -/
theorem forall_prefix_iff_along {C D : σ → ι → Prop} {I P : σ → Prop}
    (hiff : ∀ s i o s', I s → P s → D s i → step s i = some (o, s') → (P s' ↔ C s i))
    (hkeep : ∀ s i o s', I s → P s → D s i → C s i → step s i = some (o, s') → I s') {s s' : σ}
    {is : List ι} {os : List ω} (hI : I s) (hP : P s) (hD : Along step D s is)
    (hr : run step s is = some (os, s')) :
    (∀ pre post os t, is = pre ++ post → run step s pre = some (os, t) → P t) ↔
      Along step C s is := by
  induction is generalizing s os with
  | nil =>
    refine ⟨fun _ => trivial, fun _ pre post os t hpre hrun => ?_⟩
    obtain ⟨rfl, rfl⟩ := List.append_eq_nil_iff.mp hpre.symm
    cases hrun
    exact hP
  | cons i is ih =>
    obtain ⟨o, s₁, os', h₁, h₂, rfl⟩ := run_cons_eq_some_iff.mp hr
    have hiff₁ := hiff s i o s₁ hI hP hD.1 h₁
    have hD₁ := hD.2 o s₁ h₁
    constructor
    · intro hall
      have hC := hiff₁.mp (hall [i] is [o] s₁ rfl
        (run_cons_eq_some_iff.mpr ⟨o, s₁, [], h₁, rfl, rfl⟩))
      refine ⟨hC, fun o' t ht => ?_⟩
      rw [h₁] at ht
      cases ht
      have hI₁ := hkeep s i o s₁ hI hP hD.1 hC h₁
      refine (ih hI₁ (hiff₁.mpr hC) hD₁ h₂).mp fun pre post os t hpre hrun => ?_
      exact hall (i :: pre) post (o :: os) t (by rw [hpre, List.cons_append])
        (run_cons_eq_some_iff.mpr ⟨o, s₁, os, h₁, hrun, rfl⟩)
    · rintro ⟨hC, hal⟩ pre post os t hpre hrun
      cases pre with
      | nil => cases hrun; exact hP
      | cons j pre =>
        obtain ⟨rfl, his⟩ := List.cons.inj hpre
        obtain ⟨o', s₂, os₁, h₁', hrun', rfl⟩ := run_cons_eq_some_iff.mp hrun
        rw [h₁] at h₁'
        cases h₁'
        have hI₁ := hkeep s i o s₁ hI hP hD.1 hC h₁
        exact (ih hI₁ (hiff₁.mpr hC) hD₁ h₂).mpr (hal o s₁ h₁) pre post os₁ t his hrun'

/-! ## Simulation by a relation -/

section Simulation
variable {Step : τ → ι → ω → τ → Prop}

/-- A run in which every step is allowed by a relation. -/
inductive Runs (Step : τ → ι → ω → τ → Prop) : τ → List ι → List ω → τ → Prop
  | nil (t : τ) : Runs Step t [] [] t
  | cons {t t' t'' : τ} {i : ι} {is : List ι} {o : ω} {os : List ω} (h : Step t i o t')
    (hrun : Runs Step t' is os t'') : Runs Step t (i :: is) (o :: os) t''

/-- **Forward simulation**: a machine whose steps the relation allows has its runs allowed. -/
theorem simulated {R : σ → τ → Prop} (hstep : ∀ s t i o s', R s t → step s i = some (o, s') →
      ∃ t', Step t i o t' ∧ R s' t') {s s' : σ} {t : τ} {is : List ι} {os : List ω} (hR : R s t)
    (h : run step s is = some (os, s')) : ∃ t', Runs Step t is os t' ∧ R s' t' := by
  induction is generalizing s t os with
  | nil =>
    cases h
    exact ⟨t, .nil t, hR⟩
  | cons i is ih =>
    obtain ⟨o, s₁, os', hi, hrest, rfl⟩ := run_cons_eq_some_iff.mp h
    obtain ⟨t₁, ht, hR₁⟩ := hstep s t i o s₁ hR hi
    obtain ⟨t', hruns, hR'⟩ := ih hR₁ hrest
    exact ⟨t', .cons ht hruns, hR'⟩

/-- Forward simulation of a run whose inputs all meet `Q`. -/
theorem simulated_of_mem {R : σ → τ → Prop} {Q : ι → Prop}
    (hstep : ∀ s t i o s', R s t → Q i → step s i = some (o, s') →
      ∃ t', Step t i o t' ∧ R s' t') {s s' : σ} {t : τ} {is : List ι} {os : List ω} (hR : R s t)
    (hQ : ∀ i ∈ is, Q i) (h : run step s is = some (os, s')) :
    ∃ t', Runs Step t is os t' ∧ R s' t' := by
  induction is generalizing s t os with
  | nil =>
    cases h
    exact ⟨t, .nil t, hR⟩
  | cons i is ih =>
    obtain ⟨o, s₁, os', hi, hrest, rfl⟩ := run_cons_eq_some_iff.mp h
    obtain ⟨hQi, hQis⟩ := List.forall_mem_cons.mp hQ
    obtain ⟨t₁, ht, hR₁⟩ := hstep s t i o s₁ hR hQi hi
    obtain ⟨t', hruns, hR'⟩ := ih hR₁ hQis hrest
    exact ⟨t', .cons ht hruns, hR'⟩

/-- Where `P` is kept and tells what an answer may be, every answer of a run is such. -/
theorem Runs.answers {P : τ → Prop} {A : ι → ω → Prop}
    (hstep : ∀ t i o t', P t → Step t i o t' → P t' ∧ A i o) {t t' : τ} {is : List ι}
    {os : List ω} (h : Runs Step t is os t') (ht : P t) : List.Forall₂ A is os := by
  induction h with
  | nil t => exact .nil
  | cons hs _ ih =>
    obtain ⟨hP, hA⟩ := hstep _ _ _ _ ht hs
    exact .cons hA (ih hP)

end Simulation

end Bentobox.Machine
