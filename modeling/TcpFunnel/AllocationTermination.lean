import TcpFunnel.PoolRuns
import TcpFunnel.Library.Supply
import Mathlib.Tactic.Ring

/-!
# When an allocation returns

`x_buf_alloc` calls itself after every attempt to grow the pool. It returns
with the first `malloc` that succeeds, and never when all of them fail. A block
that has no room for its own header is of no use to it.
-/

set_option autoImplicit false

namespace TcpFunnel.AllocationTermination
open TcpFunnel.BufferPool TcpFunnel.Reachability TcpFunnel.TransferRuns TcpFunnel.PipeSimulation
open TcpFunnel.PoolRuns TcpFunnel.Supply

def Returns (h : Heap) (m : ℕ → Bool) (b : BufId) : Prop :=
  ∃ k h', xBufAlloc.run { h with mallocs := first m k } = .ok b h'

variable {h h' : Heap} {out : List BufId} {b : BufId} {m : ℕ → Bool}

theorem obtained_free (hO : Obtained b h h') :
    h.bp.head ≠ [] ∨ HeaderFits h ∧ true ∈ h.mallocs := by
  induction hO with
  | taken hb hrb => exact Or.inl (by simp [hb])
  | @grown h h' hnil hk hroom hlater ih =>
    right
    rcases ih with hne | ⟨hfits,hmem⟩
    · have hlen := List.length_pos_iff.mpr hne
      simp only [reallocated, grown_frame, bumped, hnil, List.length_nil, Nat.zero_add] at hlen
      have hgot : true ∈ h.mallocs.take (amount 0 h) := List.count_pos_iff.mp hlen
      exact ⟨hroom hgot, List.mem_of_mem_take hgot⟩
    · have hrest : (reallocated 0 h).mallocs = h.mallocs.drop (amount 0 h) :=
        grown_keeps (fun g => g.mallocs = h.mallocs.drop (amount 0 h)) (fun _ hg => hg) rfl
      rw [hrest] at hmem
      exact ⟨headerFits_reallocated.mp hfits, List.mem_of_mem_drop hmem⟩

theorem alloc_free (hS : Sane h out) (hne : h.bp.head ≠ []) (k : ℕ) :
    ∃ b h', (xBufAllocAt (k+1)).run h = .ok b h' := by
  cases hhead : h.bp.head with
  | nil => exact absurd hhead hne
  | cons b rest =>
    obtain ⟨rb,hrb,-⟩ := hS.live b (by simp [hhead])
    unfold xBufAllocAt
    simp only [EStateM.run_bind, EStateM.run_get, hhead, buf_run hrb]
    exact ⟨b, _, rfl⟩

theorem alloc_empty (hnil : h.bp.head = []) (hk : amount 0 h ≤ h.mallocs.length)
    (hfits : HeaderFits h) (k : ℕ) :
    (xBufAllocAt (k+1)).run h = (xBufAllocAt k).run (reallocated 0 h) := by
  simp only [xBufAllocAt, EStateM.run_bind, EStateM.run_get, hnil, ralloc_run hk hfits]

/-- An attempt to grow the pool gets a block, or has used up failures only. -/
theorem attempt {n : ℕ} (hnil : h.bp.head = []) (hm : h.mallocs = first m (amount 0 h+n)) :
    (reallocated 0 h).bp.head ≠ [] ∨ ((∀ i, i < amount 0 h → m i = false) ∧
      reallocated 0 h = { bumped h with mallocs := first (after m (amount 0 h)) n }) := by
  have htake : h.mallocs.take (amount 0 h) = first m (amount 0 h) := by rw [hm, first_take]
  have hdrop : h.mallocs.drop (amount 0 h) = first (after m (amount 0 h)) n := by
    rw [hm, first_drop]
  rcases Nat.eq_zero_or_pos (gained 0 h) with hnone | hsome
  · right
    constructor
    · intro i hi
      unfold gained at hnone
      rw [htake] at hnone
      have hmem : m i ∈ first m (amount 0 h) := mem_first.mpr ⟨i, hi, rfl⟩
      have hfail : true ∉ first m (amount 0 h) := List.count_eq_zero.mp hnone
      cases hmi : m i with
      | false => rfl
      | true =>
        rw [hmi] at hmem
        exact absurd hmem hfail
    · unfold reallocated
      rw [hnone, hdrop, grown_zero]
  · left
    apply List.ne_nil_of_length_pos
    simp only [reallocated, grown_frame, bumped, hnil, List.length_nil]
    omega

/-- The first success ends the calls within the attempt that it belongs to. -/
theorem alloc_succeeds (q : ℕ) {h : Heap} {m : ℕ → Bool} {i k : ℕ} (hS : Sane h out)
    (hmax : 0 ≤ h.bp.max) (hfits : HeaderFits h) (hnil : h.bp.head = [])
    (hi : i < (q+1)*amount 0 h) (hgot : m i = true)
    (hm : h.mallocs = first m ((q+1)*amount 0 h)) (hk : q+2 ≤ k) :
    ∃ b h', (xBufAllocAt k).run h = .ok b h' := by
  induction q generalizing h m i k with
  | zero =>
    obtain ⟨k,rfl⟩ := Nat.exists_eq_add_of_le' hk
    rw [Nat.zero_add, Nat.one_mul] at hi hm
    have hasked : amount 0 h ≤ h.mallocs.length := by rw [hm, first_length]
    rw [alloc_empty hnil hasked hfits]
    rcases @attempt h m 0 hnil hm with hfree | ⟨hnone,-⟩
    · exact alloc_free (sane_reallocated hS) hfree k
    · rw [hnone i hi] at hgot
      cases hgot
  | succ q ih =>
    obtain ⟨k,rfl⟩ := Nat.exists_eq_add_of_le' (show 1 ≤ k by omega)
    have hsplit : (q+1+1)*amount 0 h = amount 0 h+(q+1)*amount 0 h := by ring
    rw [hsplit] at hi hm
    have hasked : amount 0 h ≤ h.mallocs.length := by
      rw [hm, first_length]
      exact Nat.le_add_right _ _
    rw [alloc_empty hnil hasked hfits]
    rcases attempt hnil hm with hfree | ⟨hnone,hrest⟩
    · obtain ⟨k,rfl⟩ := Nat.exists_eq_add_of_le' (show 1 ≤ k by omega)
      exact alloc_free (sane_reallocated hS) hfree k
    · have hlater : amount 0 h ≤ i := by
        by_contra hlt
        rw [hnone i (by omega)] at hgot
        cases hgot
      have hshift : after m (amount 0 h) (i-amount 0 h) = true := by
        unfold after
        rw [Nat.add_sub_cancel' hlater]
        exact hgot
      obtain ⟨hsame,-⟩ := amount_bumped hmax (first (after m (amount 0 h)) ((q+1)*amount 0 h))
      have hmax' : 0 ≤ (bumped h).bp.max := by
        unfold bumped
        simp only
        split <;> omega
      have hsane : Sane (reallocated 0 h) out := sane_reallocated hS
      rw [hrest] at hsane ⊢
      apply ih hsane hmax' hfits hnil _ hshift _ (by omega)
      · rw [hsame]
        omega
      · rw [hsame]

/-- The call returns exactly when a buffer is free or some `malloc` succeeds for
a block with room for its header, and it returns a buffer that was not
outstanding. -/
theorem allocation_ends (hS : Sane h out) (hmax : 0 ≤ h.bp.max) (m : ℕ → Bool) :
    ((∃ b, Returns h m b) ↔ h.bp.head ≠ [] ∨ HeaderFits h ∧ ∃ i, m i = true) ∧
    ∀ b, Returns h m b → b ∉ out := by
  have hsupplied : ∀ l, Sane { h with mallocs := l } out := fun l => sane_same hS rfl rfl
  refine ⟨⟨?_, ?_⟩, ?_⟩
  · rintro ⟨b,k,h',hrun⟩
    refine (obtained_free (alloc_obtained _ hrun)).imp_right fun ⟨hfits,hmem⟩ => ⟨hfits, ?_⟩
    obtain ⟨i,-,hi⟩ := mem_first.mp hmem
    exact ⟨i, hi⟩
  · intro hcond
    by_cases hnil : h.bp.head = []
    · obtain ⟨hfits,i,hi⟩ := hcond.resolve_left (not_not.mpr hnil)
      obtain ⟨-,hpos⟩ := amount_bumped hmax []
      set M := amount 0 h with hM
      have hlt : i < (i+1)*M := by
        have hle := Nat.le_mul_of_pos_right (i+1) hpos
        omega
      obtain ⟨b,h',hrun⟩ := alloc_succeeds i (hsupplied (first m ((i+1)*M))) hmax hfits hnil hlt
        hi rfl
        (show i+2 ≤ (first m ((i+1)*M)).length+1 by rw [first_length]; omega)
      exact ⟨b, (i+1)*M, h', hrun⟩
    · obtain ⟨b,h',hrun⟩ := alloc_free (hsupplied []) hnil 0
      exact ⟨b, 0, h', hrun⟩
  · rintro b ⟨k,h',hrun⟩
    exact (obtained_sane (alloc_obtained _ hrun) (hsupplied _)).1

theorem one_taken : ∃ s, Reachable (pool fun _ _ _ => True) s ∧ s.heap.bp.head = [] ∧
    0 ≤ s.heap.bp.max ∧ HeaderFits s.heap := by
  have hplay : ((begun 1 nodeBufsiz [true]).bind (serve (fun _ _ => True) · [⟨.alloc, []⟩])).any
      (fun s => s.heap.bp.head = [] ∧ 0 ≤ s.heap.bp.max ∧ HeaderFits s.heap) = true := by
    decide +kernel
  obtain ⟨s,hs,hstate⟩ := begun_reaches (fun _ _ _ => True) _ trivial hplay
  exact ⟨s, hs, of_decide_eq_true hstate⟩

theorem allocation_ends_fourth : ∃ h b, h.bp.head = [] ∧ Returns h (fun i => i = 3) b := by
  obtain ⟨s,hs,hnil,hmax,hfits⟩ := one_taken
  obtain ⟨b,hb⟩ := (allocation_ends (reaches_sane hs) hmax (fun i => i = 3)).1.mpr
    (Or.inr ⟨hfits, 3, by decide⟩)
  exact ⟨s.heap, b, hnil, hb⟩

theorem allocation_loops : ∃ (h : Heap) (out : List BufId) (m : ℕ → Bool), Sane h out ∧
    0 ≤ h.bp.max ∧ ∀ b, ¬ Returns h m b := by
  obtain ⟨s,hs,hnil,hmax,-⟩ := one_taken
  refine ⟨s.heap, s.out, fun _ => false, reaches_sane hs, hmax, ?_⟩
  rintro b ⟨k,h',hrun⟩
  rcases obtained_free (alloc_obtained _ hrun) with hne | ⟨-,hmem⟩
  · exact hne hnil
  · obtain ⟨i,-,hi⟩ := mem_first.mp hmem
    cases hi

end TcpFunnel.AllocationTermination
