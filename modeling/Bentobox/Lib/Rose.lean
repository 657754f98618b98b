import Mathlib.Data.List.Perm.Basic

/-!
# Labelled trees

Trees with any number of children. The labels are listed node by node from the root down, or
breadth first as by a queue; both lists have the same labels.
-/
namespace Bentobox

universe u

inductive Rose (α : Type u)
  | node (label : α) (children : List (Rose α))

namespace Rose
variable {α : Type u}

def label : Rose α → α
  | node a _ => a

def children : Rose α → List (Rose α)
  | node _ ts => ts

mutual

/-- The labels, that of the root first. -/
def preorder : Rose α → List α
  | node a ts => a :: preorderAll ts

def preorderAll : List (Rose α) → List α
  | [] => []
  | t :: ts => t.preorder ++ preorderAll ts

end

mutual

/-- The tree and the trees below it. -/
def subtrees : Rose α → List (Rose α)
  | node a ts => node a ts :: subtreesAll ts

def subtreesAll : List (Rose α) → List (Rose α)
  | [] => []
  | t :: ts => t.subtrees ++ subtreesAll ts

end

theorem preorderAll_append (ts us : List (Rose α)) :
    preorderAll (ts ++ us) = preorderAll ts ++ preorderAll us := by
  induction ts with
  | nil => rfl
  | cons t ts ih => rw [List.cons_append, preorderAll, preorderAll, ih, List.append_assoc]

/-- The labels of the trees in the queue and of those below, where a tree from the front of the
queue leaves its children at the end. There is fuel for a number of nodes. -/
def walk : ℕ → List (Rose α) → List α
  | 0, _ => []
  | _ + 1, [] => []
  | fuel + 1, node a ts :: todo => a :: walk fuel (todo ++ ts)

/-- The labels breadth first. -/
def breadthFirst (t : Rose α) : List α := walk t.preorder.length [t]

theorem walk_perm {fuel : ℕ} {todo : List (Rose α)} (h : (preorderAll todo).length ≤ fuel) :
    (walk fuel todo).Perm (preorderAll todo) := by
  induction fuel generalizing todo with
  | zero =>
    have hnil := List.length_eq_zero_iff.mp (Nat.le_zero.mp h)
    rw [hnil]
    exact .refl _
  | succ fuel ih =>
    cases todo with
    | nil => exact .refl _
    | cons t todo =>
      obtain ⟨a, ts⟩ := t
      simp only [preorderAll, preorder, List.cons_append, List.length_cons, List.length_append] at h
      have hlen : (preorderAll (todo ++ ts)).length ≤ fuel := by
        rw [preorderAll_append, List.length_append]
        omega
      rw [walk, preorderAll, preorder, List.cons_append]
      refine ((ih hlen).trans ?_).cons a
      rw [preorderAll_append]
      exact List.perm_append_comm

/-- **The breadth first walk** visits every node once. -/
theorem breadthFirst_perm (t : Rose α) : t.breadthFirst.Perm t.preorder := by
  have hall : preorderAll [t] = t.preorder := by simp [preorderAll]
  have hperm := walk_perm (Nat.le_of_eq (congrArg List.length hall))
  rwa [hall] at hperm

end Rose
end Bentobox
