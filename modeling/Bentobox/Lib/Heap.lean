import Mathlib.Data.Set.Basic

/-!
# Heaps of cells

Objects that are shared by reference are kept in numbered cells. New cells come from
the end, so a cell in use is never handed out again.
-/
namespace Bentobox

universe u

/-- Cells with contents; those from `next` on are free. -/
structure Heap (α : Type u) where
  cell : ℕ → α
  next : ℕ

namespace Heap
variable {α : Type u}

/-- Change the contents of a cell. -/
def set (h : Heap α) (i : ℕ) (a : α) : Heap α :=
  { h with cell := fun j => if j = i then a else h.cell j }

/-- A new cell. -/
def alloc (h : Heap α) (a : α) : Heap α :=
  ⟨fun j => if j = h.next then a else h.cell j, h.next + 1⟩

@[simp] theorem next_set (h : Heap α) (i : ℕ) (a : α) : (h.set i a).next = h.next := rfl

@[simp] theorem next_alloc (h : Heap α) (a : α) : (h.alloc a).next = h.next + 1 := rfl

@[simp] theorem cell_set_self (h : Heap α) (i : ℕ) (a : α) : (h.set i a).cell i = a := by
  simp [set]

theorem cell_set_ne (h : Heap α) {i j : ℕ} (hj : j ≠ i) (a : α) :
    (h.set i a).cell j = h.cell j := by simp [set, hj]

@[simp] theorem set_cell (h : Heap α) (i : ℕ) : h.set i (h.cell i) = h := by
  obtain ⟨cell, next⟩ := h
  simp only [set, mk.injEq, and_true]
  funext j
  split
  next hj => rw [hj]
  next => rfl

@[simp] theorem cell_alloc_next (h : Heap α) (a : α) : (h.alloc a).cell h.next = a := by
  simp [alloc]

theorem cell_alloc_of_lt {h : Heap α} {i : ℕ} (hi : i < h.next) (a : α) :
    (h.alloc a).cell i = h.cell i := by simp [alloc, hi.ne]

/-- `h'` has grown out of `h` without a change to the cells of `h`. -/
structure Extends (h h' : Heap α) : Prop where
  next : h.next ≤ h'.next
  cell : ∀ i < h.next, h'.cell i = h.cell i

theorem Extends.refl (h : Heap α) : h.Extends h := ⟨le_rfl, fun _ _ => rfl⟩

theorem Extends.trans {h₁ h₂ h₃ : Heap α} (h : h₁.Extends h₂) (h' : h₂.Extends h₃) :
    h₁.Extends h₃ :=
  ⟨h.next.trans h'.next, fun i hi => (h'.cell i (hi.trans_le h.next)).trans (h.cell i hi)⟩

theorem extends_alloc (h : Heap α) (a : α) : h.Extends (h.alloc a) :=
  ⟨Nat.le_succ _, fun _ hi => cell_alloc_of_lt hi a⟩

end Heap
end Bentobox
