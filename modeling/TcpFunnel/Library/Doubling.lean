import Mathlib.Order.Bounds.Basic
import Mathlib.Algebra.Order.Ring.Nat
import Mathlib.Tactic.Ring

/-!
# A capacity that doubles

The capacity starts at one and doubles when the demand exceeds it by one. It
then depends on the peak of the demand alone: it is the least power of two
that is not below it.
-/

set_option autoImplicit false

namespace TcpFunnel.Doubling

/-- The capacity `cap` when the demand has been at most `peak`. -/
structure At (peak cap : ℕ) : Prop where
  pow : ∃ k, cap = 2^k
  enough : max 1 peak ≤ cap
  tight : cap < 2*max 1 peak

variable {peak cap d : ℕ}

theorem at_start : At 0 1 := ⟨⟨0, rfl⟩, by decide, by decide⟩

theorem At.within (h : At peak cap) (hd : d ≤ cap) : At (max peak d) cap := by
  obtain ⟨hpow,henough,htight⟩ := h
  exact ⟨hpow, by omega, by omega⟩

theorem At.exceeded (h : At peak cap) : At (max peak (cap+1)) (2*cap) := by
  obtain ⟨⟨k,rfl⟩,henough,htight⟩ := h
  refine ⟨⟨k+1, by ring⟩, ?_, ?_⟩
  · have hpos : 0 < 2^k := Nat.two_pow_pos k
    omega
  · omega

theorem At.least (h : At peak cap) : IsLeast {m | ∃ k, m = 2^k ∧ max 1 peak ≤ m} cap := by
  obtain ⟨⟨k,rfl⟩,henough,htight⟩ := h
  refine ⟨⟨k, rfl, henough⟩, ?_⟩
  rintro m ⟨j,rfl,hj⟩
  have hlt : 2^k < 2^(j+1) := by
    rw [pow_succ]
    omega
  have hkj : k < j+1 := (Nat.pow_lt_pow_iff_right (by decide)).mp hlt
  exact Nat.pow_le_pow_right (by decide) (Nat.le_of_lt_succ hkj)

end TcpFunnel.Doubling
