import Mathlib.Data.List.Basic
import Mathlib.Data.List.Range

/-!
# Answers supplied from a sequence

A computation that asks its environment is given the first of infinitely many
answers.
-/

set_option autoImplicit false

namespace TcpFunnel.Supply

variable {α : Type*}

def first (a : ℕ → α) (n : ℕ) : List α := (List.range n).map a

def after (a : ℕ → α) (k : ℕ) : ℕ → α := fun i => a (k+i)

variable {a : ℕ → α} {k n : ℕ} {x : α}

@[simp] theorem first_length : (first a n).length = n := by simp [first]

theorem first_zero : first a 0 = [] := rfl

theorem first_add : first a (k+n) = first a k ++ first (after a k) n := by
  unfold first
  rw [List.range_add, List.map_append, List.map_map]
  rfl

theorem first_take : (first a (k+n)).take k = first a k := by
  rw [first_add]
  exact List.take_left' first_length

theorem first_drop : (first a (k+n)).drop k = first (after a k) n := by
  rw [first_add]
  exact List.drop_left' first_length

theorem first_map {β : Type*} (f : α → β) : first (fun i => f (a i)) n = (first a n).map f := by
  simp [first]

theorem mem_first : x ∈ first a n ↔ ∃ i, i < n ∧ a i = x := by
  simp [first]

end TcpFunnel.Supply
