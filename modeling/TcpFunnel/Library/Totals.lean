import Mathlib.Algebra.BigOperators.Group.Finset.Basic
import TcpFunnel.Library.Store

/-!
# The total weight of the records of a store

Each record that is there has a weight. The total is a sum over the names that
have been given out, and changes by the weight of one record when a record
comes, goes or is overwritten.
-/

set_option autoImplicit false

namespace TcpFunnel.Totals
open Finset

variable {α : Type*} (weight : α → ℕ)

def weightAt (s : Store α) (i : ℕ) : ℕ := ((s.get i).map weight).getD 0

def total (s : Store α) : ℕ := ∑ i ∈ range s.next, weightAt weight s i

@[simp] theorem total_empty : total weight (Store.empty : Store α) = 0 := rfl

theorem total_push (s : Store α) (a : α) :
    total weight (s.push a) = total weight s + weight a := by
  have hold : ∀ i ∈ range s.next, weightAt weight (s.push a) i = weightAt weight s i := by
    intro i hi
    simp [weightAt, Nat.ne_of_lt (mem_range.mp hi)]
  have hnew : weightAt weight (s.push a) s.next = weight a := by simp [weightAt]
  rw [total, Store.push_next, sum_range_succ, sum_congr rfl hold, hnew]
  rfl

variable {s t : Store α} {i : ℕ} {a : α}

theorem total_change (hs : s.WellFormed) (ha : s.get i = some a) (hnext : t.next = s.next)
    (hother : ∀ j, j ≠ i → t.get j = s.get j) :
    total weight t + weight a = total weight s + weightAt weight t i := by
  have hi : i ∈ range s.next := mem_range.mpr (hs.lt ha)
  have hrest : ∑ j ∈ (range s.next).erase i, weightAt weight t j =
      ∑ j ∈ (range s.next).erase i, weightAt weight s j := by
    refine sum_congr rfl fun j hj => ?_
    rw [weightAt, weightAt, hother j (mem_erase.mp hj).1]
  have hwas : weightAt weight s i = weight a := by simp [weightAt, ha]
  rw [total, total, hnext, ← add_sum_erase _ _ hi, ← add_sum_erase _ _ hi, hrest, hwas]
  omega

theorem total_free (hs : s.WellFormed) (ha : s.get i = some a) :
    total weight (s.free i) + weight a = total weight s := by
  have h := total_change weight (t := s.free i) hs ha rfl fun j hj => by simp [hj]
  simpa [weightAt] using h

theorem total_set (hs : s.WellFormed) (ha : s.get i = some a) (b : α) :
    total weight (s.set i b) + weight a = total weight s + weight b := by
  have h := total_change weight (t := s.set i b) hs ha rfl fun j hj => by simp [hj]
  simpa [weightAt] using h

theorem total_eq_zero (h : ∀ i, s.get i = none) : total weight s = 0 :=
  sum_eq_zero fun i _ => by simp [weightAt, h]

end TcpFunnel.Totals
