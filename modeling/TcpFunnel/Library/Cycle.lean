import Mathlib.Data.List.Perm.Subperm
import Mathlib.Data.Int.CardIntervalMod

/-!
# Turns over a fixed number of places

A counter that is reduced before it is used and then incremented visits the
places in turn. It rests at the number of places after the last of them.
-/

set_option autoImplicit false

namespace TcpFunnel.Cycle

def turns (N k : ℕ) : List ℕ := (List.range k).map (· % N)

variable {N k : ℕ}

@[simp] theorem turns_length : (turns N k).length = k := by simp [turns]

theorem turns_succ : turns N (k+1) = turns N k ++ [k % N] := by
  simp [turns, List.range_succ]

structure At (N k x : ℕ) : Prop where
  le : x ≤ N
  mod : x % N = k % N

theorem at_zero : At N 0 0 := ⟨Nat.zero_le N, rfl⟩

theorem At.next {x : ℕ} (h : At N k x) (hN : 0 < N) : At N (k+1) (x % N + 1) where
  le := Nat.mod_lt x hN
  mod := by
    rw [h.mod]
    exact Nat.mod_add_mod k N 1

theorem At.turned {j x : ℕ} (h : At N j x) (hN : 0 < N) (k : ℕ) :
    At N (j+k) ((fun x => x % N + 1)^[k] x) := by
  induction k with
  | zero => exact h
  | succ k ih =>
    rw [Function.iterate_succ_apply']
    exact ih.next hN

theorem window_eq {m : ℕ} (h : m+N ≤ k) :
    ((turns N k).drop m).take N = (List.range N).map (fun j => (m+j) % N) := by
  apply List.ext_getElem
  · simp only [turns, List.length_take, List.length_drop, List.length_map, List.length_range]
    omega
  · intro j hj hj'
    simp [turns]

/-- Any `N` consecutive turns visit every place once. -/
theorem window_perm (hN : 0 < N) {m : ℕ} (h : m+N ≤ k) :
    (((turns N k).drop m).take N).Perm (List.range N) := by
  rw [window_eq h]
  have hnodup : ((List.range N).map (fun j => (m+j) % N)).Nodup := by
    apply List.Nodup.map_on _ List.nodup_range
    intro i hi j hj hij
    have hmod : i % N = j % N := Nat.ModEq.add_left_cancel' m hij
    rwa [Nat.mod_eq_of_lt (List.mem_range.mp hi), Nat.mod_eq_of_lt (List.mem_range.mp hj)] at hmod
  have hsub : (List.range N).map (fun j => (m+j) % N) ⊆ List.range N := by
    intro i hi
    obtain ⟨j,-,rfl⟩ := List.mem_map.mp hi
    exact List.mem_range.mpr (Nat.mod_lt _ hN)
  apply (List.subperm_of_subset hnodup hsub).perm_of_length_le
  simp

theorem count_eq {i : ℕ} (hi : i < N) :
    (turns N k).count i = Nat.count (· ≡ i [MOD N]) k := by
  induction k with
  | zero => rfl
  | succ k ih =>
    have hlast : (k % N = i) ↔ k ≡ i [MOD N] := by
      unfold Nat.ModEq
      rw [Nat.mod_eq_of_lt hi]
    rw [turns_succ, List.count_append, ih, Nat.count_succ]
    simp [List.count_singleton, hlast]

theorem count_turns (hN : 0 < N) {i : ℕ} (hi : i < N) :
    (turns N k).count i = k/N + if i < k % N then 1 else 0 := by
  rw [count_eq hi, Nat.count_modEq_card k hN i, Nat.mod_eq_of_lt hi]

/-- A place is visited as often as any other, up to the round that has not
ended. -/
theorem count_turns_round (hN : 0 < N) {i : ℕ} (hi : i < N) :
    (turns N k).count i = k/N ∨ (turns N k).count i = (k+(N-1))/N := by
  rw [count_turns hN hi]
  by_cases hr : i < k % N
  · right
    have hk := Nat.div_add_mod k N
    have hlt := Nat.mod_lt k hN
    rw [if_pos hr]
    symm
    apply Nat.div_eq_of_lt_le
    · rw [Nat.add_mul, Nat.mul_comm]
      omega
    · rw [Nat.add_mul, Nat.add_mul, Nat.mul_comm]
      omega
  · left
    rw [if_neg hr, Nat.add_zero]

end TcpFunnel.Cycle
