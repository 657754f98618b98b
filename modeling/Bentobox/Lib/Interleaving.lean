import Mathlib.Data.List.Basic

/-!
# Interleaved threads

Two threads move on one shared state, one atomic step at a time; `none` ends the run.
Where the steps of one thread that come before steps of the other are independent of
them, they can be moved behind them: the run ends as the threads do one after the
other.
-/
namespace Bentobox.Interleaving

variable {L S : Type}

inductive Side
  | left | right
  deriving DecidableEq, Repr

/-- Two threads and the state that they share. -/
structure Threads (L S : Type) where
  left : L
  right : L
  shared : S

def Side.other : Side → Side
  | left => right
  | right => left

def Threads.swap (t : Threads L S) : Threads L S := ⟨t.right, t.left, t.shared⟩

/-- The local states that one thread moved from. -/
def locals (side : Side) (trace : List (Side × L)) : List L :=
  trace.filterMap fun move => if move.1 = side then some move.2 else none

section
variable (step : L → S → Option (L × S))

/-- The threads move as the schedule says; the trace has the local state of every move. -/
def interleave : List Side → Threads L S → Option (List (Side × L) × Threads L S)
  | [], t => some ([], t)
  | .left :: schedule, t =>
    (step t.left t.shared).bind fun r =>
      (interleave schedule ⟨r.1, t.right, r.2⟩).map fun run => ((.left, t.left) :: run.1, run.2)
  | .right :: schedule, t =>
    (step t.right t.shared).bind fun r =>
      (interleave schedule ⟨t.left, r.1, r.2⟩).map fun run => ((.right, t.right) :: run.1, run.2)

/-- A thread moves alone, from the local states listed. -/
inductive Alone : List L → L × S → L × S → Prop
  | nil (p : L × S) : Alone [] p p
  | cons {a a' : L} {s s' : S} {locals : List L} {p : L × S} :
    step a s = some (a', s') → Alone locals (a', s') p → Alone (a :: locals) (a, s) p

/-- Two steps that are independent may be taken in the other order. -/
def Commutes (Independent : L → L → Prop) : Prop :=
  ∀ a b a' b' s s₁ s₂, Independent b a → step b s = some (b', s₁) → step a s₁ = some (a', s₂) →
    ∃ s', step a s = some (a', s') ∧ step b s' = some (b', s₂)

end

/-- The moves of `side` do not depend on the moves of the other thread before them. -/
def First (Independent : L → L → Prop) (side : Side) (trace : List (Side × L)) : Prop :=
  trace.Pairwise fun x y => x.1 = side.other → y.1 = side → Independent x.2 y.2

variable {step : L → S → Option (L × S)} {Independent : L → L → Prop}

theorem interleave_left_eq_some_iff {schedule : List Side} {t t' : Threads L S}
    {trace : List (Side × L)} : interleave step (.left :: schedule) t = some (trace, t') ↔
      ∃ a s rest, step t.left t.shared = some (a, s) ∧
        interleave step schedule ⟨a, t.right, s⟩ = some (rest, t') ∧
        trace = (.left, t.left) :: rest := by
  simp only [interleave, Option.bind_eq_some_iff, Option.map_eq_some_iff, Prod.exists,
    Prod.mk.injEq]
  constructor
  · rintro ⟨a, s, hstep, rest, _, hrest, rfl, rfl⟩; exact ⟨a, s, rest, hstep, hrest, rfl⟩
  · rintro ⟨a, s, rest, hstep, hrest, rfl⟩; exact ⟨a, s, hstep, rest, t', hrest, rfl, rfl⟩

theorem interleave_right_eq_some_iff {schedule : List Side} {t t' : Threads L S}
    {trace : List (Side × L)} : interleave step (.right :: schedule) t = some (trace, t') ↔
      ∃ b s rest, step t.right t.shared = some (b, s) ∧
        interleave step schedule ⟨t.left, b, s⟩ = some (rest, t') ∧
        trace = (.right, t.right) :: rest := by
  simp only [interleave, Option.bind_eq_some_iff, Option.map_eq_some_iff, Prod.exists,
    Prod.mk.injEq]
  constructor
  · rintro ⟨b, s, hstep, rest, _, hrest, rfl, rfl⟩; exact ⟨b, s, rest, hstep, hrest, rfl⟩
  · rintro ⟨b, s, rest, hstep, hrest, rfl⟩; exact ⟨b, s, hstep, rest, t', hrest, rfl, rfl⟩

/-- A step moves behind the steps of a thread that it is independent of. -/
theorem Alone.push (hcomm : Commutes step Independent) {b b' : L} {s s₁ : S}
    (hb : step b s = some (b', s₁)) {a : L} {locals : List L} {p : L × S}
    (h : Alone step locals (a, s₁) p) (hind : ∀ l ∈ locals, Independent b l) :
    ∃ s', Alone step locals (a, s) (p.1, s') ∧ step b s' = some (b', p.2) := by
  induction locals generalizing a s s₁ with
  | nil => cases h; exact ⟨s, .nil _, hb⟩
  | cons l locals ih =>
    cases h with
    | cons ha h =>
      obtain ⟨s₂, ha', hb'⟩ := hcomm _ _ _ _ _ _ _ (hind l List.mem_cons_self) hb ha
      obtain ⟨s', h', hb''⟩ := ih hb' h fun l hl => hind l (List.mem_cons_of_mem _ hl)
      exact ⟨s', .cons ha' h', hb''⟩

/-- **Serializability**: when the left thread is first in every conflict, the run ends as the
left thread alone and after it the right thread alone. -/
theorem serial_of_first_left (hcomm : Commutes step Independent) {schedule : List Side}
    {t t' : Threads L S} {trace : List (Side × L)}
    (h : interleave step schedule t = some (trace, t')) (hfirst : First Independent .left trace) :
    ∃ s, Alone step (locals .left trace) (t.left, t.shared) (t'.left, s) ∧
      Alone step (locals .right trace) (t.right, s) (t'.right, t'.shared) := by
  induction schedule generalizing t trace with
  | nil => cases h; exact ⟨_, .nil _, .nil _⟩
  | cons side schedule ih =>
    cases side with
    | left =>
      obtain ⟨a, s₁, rest, hstep, hrest, rfl⟩ := interleave_left_eq_some_iff.mp h
      obtain ⟨s, hleft, hright⟩ := ih hrest (List.pairwise_cons.mp hfirst).2
      exact ⟨s, .cons hstep hleft, hright⟩
    | right =>
      obtain ⟨b, s₁, rest, hstep, hrest, rfl⟩ := interleave_right_eq_some_iff.mp h
      obtain ⟨hhead, htail⟩ := List.pairwise_cons.mp hfirst
      obtain ⟨s, hleft, hright⟩ := ih hrest htail
      have hind : ∀ l ∈ locals .left rest, Independent t.right l := by
        intro l hl
        obtain ⟨⟨side, l'⟩, hmem, heq⟩ := List.mem_filterMap.mp hl
        split_ifs at heq with hside
        cases heq
        exact hhead _ hmem rfl hside
      obtain ⟨s', hleft', hstep'⟩ := hleft.push hcomm hstep hind
      exact ⟨s', hleft', .cons hstep' hright⟩

/-- Exchanging the threads exchanges them along the run. -/
theorem interleave_swap {schedule : List Side} {t t' : Threads L S} {trace : List (Side × L)}
    (h : interleave step schedule t = some (trace, t')) :
    interleave step (schedule.map Side.other) t.swap =
      some (trace.map fun x => (x.1.other, x.2), t'.swap) := by
  induction schedule generalizing t trace with
  | nil => cases h; rfl
  | cons side schedule ih =>
    cases side with
    | left =>
      obtain ⟨a, s, rest, hstep, hrest, rfl⟩ := interleave_left_eq_some_iff.mp h
      exact interleave_right_eq_some_iff.mpr ⟨a, s, _, hstep, ih hrest, rfl⟩
    | right =>
      obtain ⟨b, s, rest, hstep, hrest, rfl⟩ := interleave_right_eq_some_iff.mp h
      exact interleave_left_eq_some_iff.mpr ⟨b, s, _, hstep, ih hrest, rfl⟩

theorem First.swap {trace : List (Side × L)} (h : First Independent .right trace) :
    First Independent .left (trace.map fun x => (x.1.other, x.2)) := by
  refine List.pairwise_map.mpr (h.imp fun {x y} hxy hx hy => ?_)
  have hother : ∀ {u v : Side}, u.other = v → u = v.other := by
    intro u v huv
    rw [← huv]
    cases u <;> rfl
  exact hxy (hother hx) (hother hy)

/-- What a step keeps of a local state holds of all local states that the thread moves from. -/
theorem locals_of_invariant {P : Side → L → Prop}
    (hstep : ∀ side a s a' s', P side a → step a s = some (a', s') → P side a')
    {schedule : List Side} {t t' : Threads L S} {trace : List (Side × L)}
    (h : interleave step schedule t = some (trace, t')) (hleft : P .left t.left)
    (hright : P .right t.right) : ∀ x ∈ trace, P x.1 x.2 := by
  induction schedule generalizing t trace with
  | nil => cases h; simp
  | cons side schedule ih =>
    cases side with
    | left =>
      obtain ⟨a, s, rest, ha, hrest, rfl⟩ := interleave_left_eq_some_iff.mp h
      exact List.forall_mem_cons.mpr ⟨hleft, ih hrest (hstep _ _ _ _ _ hleft ha) hright⟩
    | right =>
      obtain ⟨b, s, rest, hb, hrest, rfl⟩ := interleave_right_eq_some_iff.mp h
      exact List.forall_mem_cons.mpr ⟨hright, ih hrest hleft (hstep _ _ _ _ _ hright hb)⟩

/-- What a step keeps, a thread that moves alone keeps. -/
theorem Alone.invariant {P : L × S → Prop}
    (hstep : ∀ a s p, P (a, s) → step a s = some p → P p) {locals : List L} {p q : L × S}
    (h : Alone step locals p q) (hp : P p) : P q := by
  induction h with
  | nil p => exact hp
  | cons ha _ ih => exact ih (hstep _ _ _ hp ha)

/-- A step-by-step simulation through `view` gives every interleaving as one on the abstract
states, with the same moves. -/
theorem interleave_view {T : Type} {step' : L → T → Option (L × T)} {P : S → Prop} {view : S → T}
    (hview : ∀ a s, P s → step' a (view s) = (step a s).map fun r => (r.1, view r.2))
    (hkeep : ∀ a s a' s', P s → step a s = some (a', s') → P s') {schedule : List Side}
    {t t' : Threads L S} {trace : List (Side × L)} (hs : P t.shared)
    (h : interleave step schedule t = some (trace, t')) :
    interleave step' schedule ⟨t.left, t.right, view t.shared⟩ =
      some (trace, ⟨t'.left, t'.right, view t'.shared⟩) := by
  induction schedule generalizing t trace with
  | nil => cases h; rfl
  | cons side schedule ih =>
    cases side with
    | left =>
      obtain ⟨a, s, rest, ha, hrest, rfl⟩ := interleave_left_eq_some_iff.mp h
      refine interleave_left_eq_some_iff.mpr ⟨a, view s, rest, ?_,
          ih (hkeep _ _ _ _ hs ha) hrest, rfl⟩
      rw [hview _ _ hs, ha, Option.map_some]
    | right =>
      obtain ⟨b, s, rest, hb, hrest, rfl⟩ := interleave_right_eq_some_iff.mp h
      refine interleave_right_eq_some_iff.mpr ⟨b, view s, rest, ?_,
          ih (hkeep _ _ _ _ hs hb) hrest, rfl⟩
      rw [hview _ _ hs, hb, Option.map_some]

end Bentobox.Interleaving
