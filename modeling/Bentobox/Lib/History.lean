import Mathlib.Data.List.Induction

/-!
# Values that are the latest entry of a history

A history is a list of events, oldest first. An event may set the value of a key,
clear it, or leave it alone. The value of a key after a history is the one that the
latest event with an effect on the key left there.
-/
namespace Bentobox.History

universe u v w

variable {ε : Type u} {κ : Type v} {α : Type w} (effect : ε → κ → Option (Option α))

/-- The value of a key after the events, when it was `start` before them. -/
def replay (k : κ) (start : Option α) (events : List ε) : Option α :=
  events.foldl (fun x e => (effect e k).getD x) start

@[simp] theorem replay_nil (k : κ) (start : Option α) : replay effect k start [] = start := rfl

@[simp] theorem replay_cons (k : κ) (start : Option α) (e : ε) (events : List ε) :
    replay effect k start (e :: events) = replay effect k ((effect e k).getD start) events := rfl

theorem replay_append (k : κ) (start : Option α) (events events' : List ε) :
    replay effect k start (events ++ events') =
      replay effect k (replay effect k start events) events' :=
  List.foldl_append

/-- Events without an effect on a key leave its value. -/
theorem replay_of_no_effect {k : κ} {events : List ε} (h : ∀ e ∈ events, effect e k = none)
    (start : Option α) : replay effect k start events = start := by
  induction events with
  | nil => rfl
  | cons e events ih =>
    rw [replay_cons, h e (by simp), Option.getD_none, ih fun e' he' => h e' (by simp [he'])]

/-- **The latest event counts**: a key has a value after a history exactly when an event set it
and no later event had an effect on it. -/
theorem replay_none_eq_some_iff {k : κ} {events : List ε} {x : α} :
    replay effect k none events = some x ↔ ∃ older e newer, events = older ++ e :: newer ∧
      effect e k = some (some x) ∧ ∀ e' ∈ newer, effect e' k = none := by
  constructor
  · induction events using List.reverseRecOn with
    | nil => intro h; cases h
    | append_singleton events e ih =>
      intro h
      rw [replay_append, replay_cons, replay_nil] at h
      cases he : effect e k with
      | none =>
        rw [he, Option.getD_none] at h
        obtain ⟨older, e', newer, rfl, hset, hnewer⟩ := ih h
        refine ⟨older, e', newer ++ [e], by simp, hset, fun e'' he'' => ?_⟩
        rcases List.mem_append.mp he'' with hm | hm
        · exact hnewer e'' hm
        · rw [List.mem_singleton.mp hm, he]
      | some y =>
        rw [he, Option.getD_some] at h
        exact ⟨events, e, [], by simp, by rw [he, h], by simp⟩
  · rintro ⟨older, e, newer, rfl, hset, hnewer⟩
    rw [replay_append, replay_cons, hset, Option.getD_some, replay_of_no_effect effect hnewer]

/-! ## One value -/

/-- The value that the latest event with an effect gives, `start` when there is none. -/
def latest {ε : Type u} {α : Type w} (effect : ε → Option α) (start : α) (events : List ε) : α :=
  events.foldl (fun x e => (effect e).getD x) start

section Latest
variable {ε : Type u} {α : Type w} {effect effect' : ε → Option α} {start : α} {events : List ε}

@[simp] theorem latest_nil : latest effect start [] = start := rfl

@[simp] theorem latest_cons {e : ε} :
    latest effect start (e :: events) = latest effect ((effect e).getD start) events := rfl

theorem latest_append {events' : List ε} : latest effect start (events ++ events') =
    latest effect (latest effect start events) events' := List.foldl_append

theorem latest_congr (h : ∀ e ∈ events, effect e = effect' e) :
    latest effect start events = latest effect' start events := by
  induction events generalizing start with
  | nil => rfl
  | cons e events ih =>
    rw [latest_cons, latest_cons, h e List.mem_cons_self]
    exact ih fun e' he' => h e' (List.mem_cons_of_mem e he')

theorem latest_of_no_effect (h : ∀ e ∈ events, effect e = none) :
    latest effect start events = start := by
  induction events with
  | nil => rfl
  | cons e events ih =>
    rw [latest_cons, h e List.mem_cons_self, Option.getD_none]
    exact ih fun e' he' => h e' (List.mem_cons_of_mem e he')

/-- The latest event with an effect gives the value. -/
theorem latest_of_last {older newer : List ε} {e : ε} {x : α} (he : effect e = some x)
    (hnewer : ∀ e' ∈ newer, effect e' = none) :
    latest effect start (older ++ e :: newer) = x := by
  rw [latest_append, latest_cons, he, Option.getD_some, latest_of_no_effect hnewer]

/-- There is no event with an effect, or there is a latest one. -/
theorem no_effect_or_last (effect : ε → Option α) (events : List ε) :
    (∀ e ∈ events, effect e = none) ∨ ∃ older e newer x, events = older ++ e :: newer ∧
      effect e = some x ∧ ∀ e' ∈ newer, effect e' = none := by
  induction events with
  | nil => exact .inl fun e he => by cases he
  | cons e events ih =>
    rcases ih with hnone | ⟨older, e', newer, x, rfl, he', hnewer⟩
    · cases he : effect e with
      | none =>
        refine .inl fun e' hmem => ?_
        rcases List.mem_cons.mp hmem with rfl | hmem
        · exact he
        · exact hnone e' hmem
      | some x => exact .inr ⟨[], e, events, x, rfl, he, hnone⟩
    · exact .inr ⟨e :: older, e', newer, x, rfl, he', hnewer⟩

/-- **Only some events are seen.** They give the right value exactly if the latest event with an
effect is seen or gives the value that the seen ones give. -/
theorem latest_seen_iff (p : ε → Prop) [DecidablePred p] :
    latest (fun e => if p e then effect e else none) start events = latest effect start events ↔
      ∀ older e newer x, events = older ++ e :: newer → effect e = some x →
        (∀ e' ∈ newer, effect e' = none) →
        p e ∨ x = latest (fun e => if p e then effect e else none) start events := by
  constructor
  · rintro h older e newer x rfl he hnewer
    right
    rw [h, latest_of_last he hnewer]
  · intro h
    rcases no_effect_or_last effect events with hnone | ⟨older, e, newer, x, rfl, he, hnewer⟩
    · rw [latest_of_no_effect hnone]
      apply latest_of_no_effect
      intro e he
      split
      · exact hnone e he
      · rfl
    · rw [latest_of_last he hnewer]
      rcases h older e newer x rfl he hnewer with hp | hx
      · apply latest_of_last
        · rw [if_pos hp, he]
        · intro e' he'
          rw [hnewer e' he', ite_self]
      · exact hx.symm

end Latest

end Bentobox.History
