import Mathlib.Tactic.Ring

/-!
# The values of a C `int`

An `int` holds the low 32 bits of a result. A counter that wraps around is known
up to a multiple of `2^32`, and exactly as long as it fits.
-/

set_option autoImplicit false

namespace TcpFunnel.CInt

/-- The value of a C `int` holding the low 32 bits of `x`. -/
def cInt (x : ℤ) : ℤ := Int.bmod x 4294967296

variable {x : ℤ}

theorem cInt_range : -2147483648 ≤ cInt x ∧ cInt x < 2147483648 := by
  unfold cInt
  rw [Int.bmod_def]
  split <;> omega

theorem cInt_fits (hlo : -2147483648 ≤ x) (hhi : x < 2147483648) : cInt x = x := by
  unfold cInt
  rw [Int.bmod_eq_of_le] <;> omega

theorem cInt_small (h0 : 0 ≤ x) (h : x < 2147483648) : cInt x = x := cInt_fits (by omega) h

theorem cInt_add (x y : ℤ) : cInt (cInt x+y) = cInt (x+y) := Int.bmod_add_bmod

/-- A counter that has been raised `j` times, one at a time. -/
def raised (x : ℤ) (j : ℕ) : ℤ := (fun x => cInt (x+1))^[j] x

theorem raised_succ (x : ℤ) (j : ℕ) : raised x (j+1) = raised (cInt (x+1)) j := rfl

theorem raised_eq (x : ℤ) (j : ℕ) : raised x (j+1) = cInt (x+(j+1)) := by
  induction j generalizing x with
  | zero => rfl
  | succ j ih =>
    rw [raised_succ, ih, cInt_add]
    congr 1
    push_cast
    ring

theorem raised_emod (x : ℤ) (j : ℕ) : raised x j % 4294967296 = (x+j) % 4294967296 := by
  cases j with
  | zero => simp [raised]
  | succ j =>
    rw [raised_eq]
    push_cast
    exact Int.bmod_emod

theorem raised_fits {j : ℕ} (hlo : -2147483648 ≤ x) (hhi : x+j < 2147483648) :
    raised x j = x+j := by
  cases j with
  | zero => simp [raised]
  | succ j =>
    rw [raised_eq]
    push_cast at hhi ⊢
    exact cInt_fits (by omega) hhi

theorem raised_range {j : ℕ} (hx : x < 2147483648) : raised x j < 2147483648 := by
  cases j with
  | zero => exact hx
  | succ j =>
    rw [raised_eq]
    exact cInt_range.2

theorem raised_iff {j : ℕ} (hlo : -2147483648 ≤ x) (hhi : x < 2147483648) :
    raised x j = x+j ↔ x+j < 2147483648 := by
  constructor
  · intro h
    rw [← h]
    exact raised_range hhi
  · exact raised_fits hlo

end TcpFunnel.CInt
