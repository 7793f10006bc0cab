import TcpFunnel.PoolRuns

/-!
# The counters of the pool

`n` counts the free list and `max` all blocks of the pool. The growth of a pool
without blocks miscounts, as it starts from a block that is not there, and so
does any growth to more blocks than an `int` can count.
-/

set_option autoImplicit false

namespace TcpFunnel.PoolCounters
open TcpFunnel.BufferPool TcpFunnel.Reachability TcpFunnel.PipeSimulation TcpFunnel.PoolRuns
open TcpFunnel.CInt

structure Counters (s : PoolUse) : Prop where
  n : s.heap.bp.n = s.heap.bp.head.length
  max : s.heap.bp.max = s.heap.bp.head.length + s.out.length

/-- The blocks that the first attempt with a success gets, of attempts with `a`
answers each. -/
def firstGrant (a : ℕ) (mallocs : List Bool) : ℕ :=
  ((mallocs.drop (mallocs.idxOf true/a*a)).take a).count true

def granted (s : PoolUse) (l : Request) : ℕ :=
  match l.call with
  | .alloc => if s.heap.bp.head = [] then firstGrant (amount 0 s.heap) l.mallocs else 0
  | .ralloc num => gained num { s.heap with mallocs := l.mallocs }
  | .adjust .. | .free _ => 0

/-- The pool is not asked for blocks while `max` is zero, and does not get more
than an `int` can count. -/
def Counting (s : PoolUse) (l : Request) : Prop :=
  match l.call with
  | .alloc | .ralloc _ => s.heap.bp.max ≠ 0 ∧ s.heap.bp.max+granted s l < 2147483648
  | .adjust .. | .free _ => True

instance (s : PoolUse) : (l : Request) → Decidable (Counting s l)
  | ⟨.alloc,_⟩ => inferInstanceAs (Decidable (s.heap.bp.max ≠ 0 ∧ _ < _))
  | ⟨.ralloc _,_⟩ => inferInstanceAs (Decidable (s.heap.bp.max ≠ 0 ∧ _ < _))
  | ⟨.adjust _ _,_⟩ => inferInstanceAs (Decidable True)
  | ⟨.free _,_⟩ => inferInstanceAs (Decidable True)

def total (s : PoolUse) : ℤ := s.heap.bp.head.length+s.out.length

variable {h h' : Heap} {b : BufId} {num : ℤ} {a : ℕ} {mallocs : List Bool}

section grants

theorem firstGrant_now (hpos : 0 < (mallocs.take a).count true) :
    firstGrant a mallocs = (mallocs.take a).count true := by
  have hmem : true ∈ mallocs.take a := List.count_pos_iff.mp hpos
  have hidx : mallocs.idxOf true < a := by
    have hlt := List.idxOf_lt_length_iff.mpr hmem
    have hsame : mallocs.idxOf true = (mallocs.take a).idxOf true := by
      conv_lhs => rw [← List.take_append_drop a mallocs, List.idxOf_append_of_mem hmem]
    rw [hsame]
    exact hlt.trans_le (List.length_take_le a mallocs)
  rw [firstGrant, Nat.div_eq_of_lt hidx, Nat.zero_mul, List.drop_zero]

theorem firstGrant_later (ha : 0 < a) (hk : a ≤ mallocs.length)
    (hnone : (mallocs.take a).count true = 0) :
    firstGrant a mallocs = firstGrant a (mallocs.drop a) := by
  have hmem : true ∉ mallocs.take a := List.count_eq_zero.mp hnone
  have hlen : (mallocs.take a).length = a := List.length_take_of_le hk
  have hidx : mallocs.idxOf true = a+(mallocs.drop a).idxOf true := by
    conv_lhs => rw [← List.take_append_drop a mallocs, List.idxOf_append_of_notMem hmem, hlen]
  rw [firstGrant, firstGrant, hidx, Nat.add_div_left _ ha, List.drop_drop]
  congr 3
  rw [Nat.succ_mul, Nat.add_comm]

/-- A pool without a free block gets the blocks of the first attempt that has a
success, and hands one of them out. -/
theorem obtained_counts (hO : Obtained b h h') (hmax : 0 ≤ h.bp.max) (hnil : h.bp.head = []) :
    h'.bp.head.length+1 = firstGrant (amount 0 h) h.mallocs ∧
    h'.bp.n = cInt (raised h.bp.n (firstGrant (amount 0 h) h.mallocs)-1) ∧
    h'.bp.max = raised (bumped h).bp.max (firstGrant (amount 0 h) h.mallocs) := by
  induction hO with
  | taken hb hrb =>
    rw [hnil] at hb
    cases hb
  | @grown h h' hempty hk hfits hlater ih =>
    obtain ⟨hsame,hpos⟩ := amount_bumped hmax (h.mallocs.drop (amount 0 h))
    rcases Nat.eq_zero_or_pos (gained 0 h) with hnone | hsome
    · have hrest : reallocated 0 h = { bumped h with mallocs := h.mallocs.drop (amount 0 h) } := by
        rw [reallocated, hnone, grown_zero]
      have hmax' : 0 ≤ (bumped h).bp.max := by
        unfold bumped
        simp only
        split <;> omega
      rw [hrest] at ih
      obtain ⟨hlen,hn,hcount⟩ := ih hmax' hempty
      rw [hsame, ← firstGrant_later hpos hk hnone] at hlen hn hcount
      refine ⟨hlen, hn, hcount.trans ?_⟩
      congr 1
      unfold bumped
      simp only
      split <;> simp_all
    · have hgrant : firstGrant (amount 0 h) h.mallocs = gained 0 h := firstGrant_now hsome
      rw [hgrant]
      have hlen : (reallocated 0 h).bp.head.length = gained 0 h := by
        simp only [reallocated, grown_frame, bumped, hempty, List.length_nil, Nat.zero_add]
      cases hlater with
      | grown hnone =>
        rw [hnone, List.length_nil] at hlen
        omega
      | taken hb hrb =>
        rw [hb, List.length_cons] at hlen
        refine ⟨hlen, ?_, ?_⟩
        · simp only [takenHead, reallocated, grown_frame, bumped]
        · simp only [takenHead, reallocated, grown_frame]

end grants

variable {s t : PoolUse} {l : Request}

/-- A call that asks for blocks counts those it gets from where `max` was, or
from one if it was zero. -/
theorem stepped_granted (hC : Counters s) (h : Stepped s l.mallocs l.call t)
    (hask : l.call = .alloc ∨ ∃ num, l.call = .ralloc num) :
    total t = total s+granted s l ∧ t.heap.bp.max = raised (bumped s.heap).bp.max (granted s l) ∧
    (total s+granted s l < 2147483648 → t.heap.bp.n = t.heap.bp.head.length) := by
  obtain ⟨call,mallocs⟩ := l
  have hn := hC.n
  have hmax := hC.max
  cases h with
  | @alloc b h' hO =>
    by_cases hnil : s.heap.bp.head = []
    · obtain ⟨hlen,hcount,hgrown⟩ := obtained_counts hO (by simp only; omega) hnil
      have hgrant : granted s ⟨.alloc, mallocs⟩ = firstGrant (amount 0 s.heap) mallocs :=
        if_pos hnil
      have hasked : amount 0 { s.heap with mallocs := mallocs } = amount 0 s.heap := rfl
      simp only [hasked] at hlen hcount hgrown
      rw [hgrant]
      rw [hnil, List.length_nil] at hn
      refine ⟨?_, hgrown, fun hfit => ?_⟩
      · simp only [total, hnil, List.length_nil, List.length_cons]
        push_cast
        omega
      · simp only [total, hnil, List.length_nil] at hfit
        rw [hn] at hcount
        simp only
        rw [hcount, raised_fits (by decide) (by omega), cInt_small] <;> omega
    · cases hO with
      | grown hempty => exact absurd hempty hnil
      | @taken _ rest rb hb hrb =>
        have hb : s.heap.bp.head = b::rest := hb
        have hgrant : granted s ⟨.alloc, mallocs⟩ = 0 := if_neg hnil
        rw [hb, List.length_cons] at hn hmax
        push_cast at hn hmax
        rw [hgrant]
        refine ⟨?_, ?_, fun hfit => ?_⟩
        · simp only [total, takenHead, hb, List.length_cons]
          push_cast
          omega
        · simp only [takenHead, bumped, raised, Function.iterate_zero, id]
          rw [if_pos (by omega)]
        · simp only [total, hb, List.length_cons] at hfit
          push_cast at hfit
          simp only [takenHead]
          rw [cInt_small] <;> omega
  | @ralloc num hnum hk =>
    have hgrant : granted s ⟨.ralloc num, mallocs⟩ =
        gained num { s.heap with mallocs := mallocs } := rfl
    rw [hgrant]
    refine ⟨?_, ?_, fun hfit => ?_⟩
    · simp only [total, reallocated, grown_frame, bumped]
      push_cast
      omega
    · simp only [reallocated, grown_frame, bumped]
    · simp only [total] at hfit
      simp only [reallocated, grown_frame, bumped, hn]
      rw [raised_fits] <;> push_cast <;> omega
  | adjust => simp at hask
  | discard => simp at hask
  | putBack => simp at hask

theorem stepped_same (hC : Counters s) (hfit : total s < 2147483648)
    (h : Stepped s l.mallocs l.call t) (hkeep : l.call ≠ .alloc ∧ ∀ num, l.call ≠ .ralloc num) :
    Counters t ∧ total t ≤ total s := by
  obtain ⟨call,mallocs⟩ := l
  obtain ⟨hn,hmax⟩ := hC
  cases h with
  | alloc => exact absurd rfl hkeep.1
  | ralloc => exact absurd rfl (hkeep.2 _)
  | adjust hb hrb hlo hhi hadjust =>
    cases hadjust with
    | kept => exact ⟨⟨hn, hmax⟩, le_refl _⟩
    | refused hlt rest => exact ⟨⟨hn, hmax⟩, le_refl _⟩
    | moved hlt hpos rest => exact ⟨⟨hn, hmax⟩, le_refl _⟩
  | @discard b rb hb hrb hbig =>
    have hlen := List.length_erase_of_mem hb
    have hpos := List.length_pos_of_mem hb
    simp only [total] at hfit ⊢
    refine ⟨⟨hn, ?_⟩, ?_⟩
    · simp only [discarded]
      rw [cInt_small] <;> omega
    · simp only [discarded]
      omega
  | @putBack b rb hb hrb hfits =>
    have hlen := List.length_erase_of_mem hb
    have hpos := List.length_pos_of_mem hb
    simp only [total] at hfit ⊢
    refine ⟨⟨?_, ?_⟩, ?_⟩
    · simp only [putBack, List.length_cons]
      push_cast
      rw [cInt_small] <;> omega
    · simp only [putBack, List.length_cons]
      push_cast
      omega
    · simp only [putBack, List.length_cons]
      push_cast
      omega

theorem stepped_counters (hC : Counters s) (hfit : total s < 2147483648)
    (h : Stepped s l.mallocs l.call t) :
    (Counters t ↔ Counting s l) ∧ (Counting s l → total t < 2147483648) := by
  by_cases hask : l.call = .alloc ∨ ∃ num, l.call = .ralloc num
  · obtain ⟨htotal,hcount,hfree⟩ := stepped_granted hC h hask
    have hcounting : Counting s l ↔
        s.heap.bp.max ≠ 0 ∧ s.heap.bp.max+granted s l < 2147483648 := by
      unfold Counting
      rcases hask with hcall | ⟨num,hcall⟩ <;> rw [hcall]
    have hmax : s.heap.bp.max = total s := hC.max
    have hcounters : Counters t ↔
        t.heap.bp.n = t.heap.bp.head.length ∧ t.heap.bp.max = total t :=
      ⟨fun ⟨hn,hm⟩ => ⟨hn, hm⟩, fun ⟨hn,hm⟩ => ⟨hn, hm⟩⟩
    have hnonneg : 0 ≤ total s := by
      unfold total
      omega
    rw [hcounting, hcounters, hmax, htotal]
    refine ⟨⟨fun ⟨_,hm⟩ => ?_, fun ⟨hne,hlt⟩ => ⟨hfree hlt, ?_⟩⟩, fun ⟨_,hlt⟩ => hlt⟩
    · by_cases hzero : total s = 0
      · -- one too many has been counted, whatever the answers were
        have hmod := raised_emod 1 (granted s l)
        rw [hcount, bumped, hmax] at hm
        simp only [hzero, ne_eq, not_true_eq_false, if_false] at hm
        rw [hm] at hmod
        omega
      · rw [hcount, bumped, hmax] at hm
        simp only [ne_eq, hzero, not_false_eq_true, if_true] at hm
        exact ⟨hzero, (raised_iff (by omega) hfit).mp hm⟩
    · rw [hcount, bumped, hmax]
      simp only [ne_eq, hne, not_false_eq_true, if_true]
      exact (raised_iff (by omega) hfit).mpr hlt
  · rw [not_or, not_exists] at hask
    obtain ⟨hC',hle⟩ := stepped_same hC hfit h hask
    have htrue : Counting s l := by
      unfold Counting
      split
      next hcall => exact absurd hcall hask.1
      next hcall => exact absurd hcall (hask.2 _)
      next => trivial
      next => trivial
    exact ⟨iff_of_true hC' htrue, fun _ => hle.trans_lt hfit⟩

def Sized (max : ℤ) (_ : ℤ) (_ : List Bool) : Prop := 0 ≤ max ∧ max < 2147483648

theorem start_counters {init : ℤ → ℤ → List Bool → Prop}
    (hinit : ∀ max size mallocs, init max size mallocs → Sized max size mallocs)
    (h : (pool init).start s) : Counters s ∧ total s < 2147483648 := by
  obtain ⟨max,size,mallocs,hargs,hk,rfl⟩ := start_grown h
  obtain ⟨hlo,hhi⟩ := hinit _ _ _ hargs
  have hle : (mallocs.take max.toNat).count true ≤ max.toNat :=
    List.count_le_length.trans (List.length_take_le _ _)
  refine ⟨⟨?_, ?_⟩, ?_⟩
  · simp only [grown_frame, List.length_nil]
    rw [raised_fits] <;> push_cast <;> omega
  · simp only [grown_frame, List.length_nil]
    rw [raised_fits] <;> push_cast <;> omega
  · simp only [total, grown_frame, List.length_nil]
    push_cast
    omega

theorem reaches_counters (h : Reaches (pool Sized) Counting s) :
    Counters s ∧ total s < 2147483648 :=
  reaches_along (fun s => Counters s ∧ total s < 2147483648)
    (fun _ => start_counters fun _ _ _ h => h)
    (fun _ _ _ _ ⟨hC,hfit⟩ ho hs =>
      have hstepped := stepped_counters hC hfit hs
      ⟨hstepped.1.mpr ho, hstepped.2 ho⟩) h

/-- The counters are right as long as no block is asked for at zero and an `int`
can count them all, and a call that goes beyond is the first to leave them
wrong. -/
theorem counters_exact (h : Reaches (pool Sized) Counting s) :
    Counters s ∧ ∀ l t, (pool Sized).step s l t → (Counters t ↔ Counting s l) := by
  obtain ⟨hC,hfit⟩ := reaches_counters h
  exact ⟨hC, fun l t hs => (stepped_counters hC hfit (step_cases (reaches_sane h) hs)).1⟩

theorem counters_exact_grown : ∃ s, Reaches (pool Sized) Counting s ∧
    s.out = [1, 0] ∧ Counters s := by
  have hplay : ((begun 1 nodeBufsiz [true]).bind
      (serve Counting · [⟨.alloc, []⟩, ⟨.alloc, [true]⟩])).any
      (fun s => s.out = [1, 0]) = true := by
    decide +kernel
  obtain ⟨s,hs,hout⟩ := begun_reaches Sized _ (by unfold Sized; decide) hplay
  exact ⟨s, hs, of_decide_eq_true hout, (counters_exact hs).1⟩

/-- The first block cannot be had, so that the pool is empty when it grows. -/
theorem counters_ahead : ∃ s, Reachable (pool Sized) s ∧ ¬ Counters s := by
  have hplay : ((begun 1 nodeBufsiz [false]).bind
      (serve (fun _ _ => True) · [⟨.alloc, [true]⟩])).any
      (fun s => s.heap.bp.max = 2 ∧ s.heap.bp.head = [] ∧ s.out = [0]) = true := by
    decide +kernel
  obtain ⟨s,hs,hcounts⟩ := begun_reaches Sized _ (by unfold Sized; decide) hplay
  obtain ⟨hmax,hhead,hout⟩ := of_decide_eq_true hcounts
  refine ⟨s, hs, fun hC => ?_⟩
  have hall := hC.max
  rw [hmax, hhead, hout] at hall
  exact absurd hall (by decide)

end TcpFunnel.PoolCounters
