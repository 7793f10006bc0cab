import Mathlib.Data.List.Basic

/-!
# Records allocated under fresh names

A store maps names to records and remembers the first name never given out.
A released name is not given out again, so a name without a record below the
frontier is exactly a released one.
-/

set_option autoImplicit false

namespace TcpFunnel

structure Store (α : Type*) where
  get : ℕ → Option α
  next : ℕ

namespace Store

variable {α : Type*}

def empty : Store α := ⟨fun _ => none, 0⟩

def set (s : Store α) (i : ℕ) (a : α) : Store α :=
  { s with get := fun j => if j = i then some a else s.get j }

def free (s : Store α) (i : ℕ) : Store α :=
  { s with get := fun j => if j = i then none else s.get j }

def push (s : Store α) (a : α) : Store α :=
  { get := fun j => if j = s.next then some a else s.get j, next := s.next+1 }

/-- No record lies at or beyond the frontier. -/
def WellFormed (s : Store α) : Prop := ∀ i, s.next ≤ i → s.get i = none

@[simp] theorem set_next (s : Store α) (i : ℕ) (a : α) : (s.set i a).next = s.next := rfl
@[simp] theorem free_next (s : Store α) (i : ℕ) : (s.free i).next = s.next := rfl
@[simp] theorem push_next (s : Store α) (a : α) : (s.push a).next = s.next+1 := rfl

@[simp] theorem set_get (s : Store α) (i j : ℕ) (a : α) :
    (s.set i a).get j = if j = i then some a else s.get j := rfl

@[simp] theorem free_get (s : Store α) (i j : ℕ) :
    (s.free i).get j = if j = i then none else s.get j := rfl

@[simp] theorem push_get (s : Store α) (j : ℕ) (a : α) :
    (s.push a).get j = if j = s.next then some a else s.get j := rfl

theorem set_some (s : Store α) (i j : ℕ) (a b : α) :
    (s.set i a).get j = some b ↔ (j = i ∧ b = a) ∨ (j ≠ i ∧ s.get j = some b) := by
  by_cases h : j = i <;> simp [h, eq_comm]

theorem push_some (s : Store α) (j : ℕ) (a b : α) :
    (s.push a).get j = some b ↔ (j = s.next ∧ b = a) ∨ (j ≠ s.next ∧ s.get j = some b) := by
  by_cases h : j = s.next <;> simp [h, eq_comm]

theorem free_some (s : Store α) (i j : ℕ) (b : α) :
    (s.free i).get j = some b ↔ j ≠ i ∧ s.get j = some b := by
  by_cases h : j = i <;> simp [h]

@[simp] theorem set_set (s : Store α) (i : ℕ) (a b : α) : (s.set i a).set i b = s.set i b := by
  simp only [set, mk.injEq, and_true]
  funext j
  split <;> rfl

theorem set_free (s : Store α) (i : ℕ) (a : α) : (s.set i a).free i = s.free i := by
  simp only [set, free, mk.injEq, and_true]
  funext j
  by_cases hj : j = i
  · rw [if_pos hj, if_pos hj]
  · rw [if_neg hj, if_neg hj, if_neg hj]

@[simp] theorem push_set (s : Store α) (a b : α) : (s.push a).set s.next b = s.push b := by
  simp only [push, set, mk.injEq, and_true]
  funext j
  by_cases hj : j = s.next <;> simp [hj]

theorem push_set_old {s : Store α} {i : ℕ} (h : i < s.next) (a b : α) :
    (s.push a).set i b = (s.set i b).push a := by
  simp only [push, set, mk.injEq, and_true]
  funext j
  by_cases hj : j = i
  · have hold : j ≠ s.next := by omega
    simp only [hj] at hold ⊢
    rw [if_pos trivial, if_neg hold]
    simp
  · simp [hj]

theorem set_self {s : Store α} {i : ℕ} {a : α} (h : s.get i = some a) : s.set i a = s := by
  obtain ⟨get,next⟩ := s
  simp only [set, mk.injEq, and_true]
  funext j
  by_cases hj : j = i
  · rw [if_pos hj, hj]
    exact h.symm
  · rw [if_neg hj]

theorem empty_wellFormed : (empty : Store α).WellFormed := fun _ _ => rfl

theorem WellFormed.lt {s : Store α} (h : s.WellFormed) {i : ℕ} {a : α}
    (ha : s.get i = some a) : i < s.next := by
  by_contra hi
  rw [h i (Nat.le_of_not_lt hi)] at ha
  cases ha

theorem WellFormed.set {s : Store α} (h : s.WellFormed) {i : ℕ} (hi : i < s.next) (a : α) :
    (s.set i a).WellFormed := by
  intro j hj
  have hne : j ≠ i := by
    intro he
    simp only [set_next] at hj
    omega
  simp [hne, h j hj]

theorem WellFormed.free {s : Store α} (h : s.WellFormed) (i : ℕ) : (s.free i).WellFormed := by
  intro j hj
  simp only [free_get]
  split
  · rfl
  · exact h j hj

theorem WellFormed.push {s : Store α} (h : s.WellFormed) (a : α) : (s.push a).WellFormed := by
  intro j hj
  simp only [push_next] at hj
  simp [show j ≠ s.next by omega, h j (by omega)]

end Store
end TcpFunnel
