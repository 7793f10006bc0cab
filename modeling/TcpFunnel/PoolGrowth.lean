import TcpFunnel.PoolCounters
import TcpFunnel.Library.Doubling

/-!
# The growth of the pool

When memory does not run out and no buffer is adjusted, the pool doubles
exactly when a buffer is asked for and all are outstanding.
-/

set_option autoImplicit false

namespace TcpFunnel.PoolGrowth
open TcpFunnel.BufferPool TcpFunnel.Reachability TcpFunnel.PipeSimulation TcpFunnel.PoolRuns
open TcpFunnel.PoolCounters

/-- One block to begin with, of a size that memory can have, and no failure. -/
def One (max size : ℤ) (mallocs : List Bool) : Prop :=
  max = 1 ∧ 0 ≤ size ∧ ∀ a ∈ mallocs, a = true

/-- A buffer is asked for or given back, and no `malloc` fails. -/
def Plenty (_ : PoolUse) (l : Request) : Prop :=
  (l.call = .alloc ∨ ∃ b, l.call = .free b) ∧ ∀ a ∈ l.mallocs, a = true

instance (s : PoolUse) (l : Request) : Decidable (Plenty s l) := by
  have hcall : Decidable (∃ b, l.call = .free b) :=
    match l.call with
    | .free b => .isTrue ⟨b, rfl⟩
    | .alloc => .isFalse (by simp)
    | .ralloc _ => .isFalse (by simp)
    | .adjust .. => .isFalse (by simp)
  unfold Plenty
  infer_instance

def Plain (h : Heap) : Prop := ∀ b rb, h.bufs.get b = some rb → rb.size = 0

structure Growing (s : PoolUse) : Prop where
  counters : Counters s
  peak : Doubling.At s.peak (s.heap.bp.head.length+s.out.length)
  size : 0 ≤ s.heap.bp.size
  plain : Plain s.heap

variable {h h' : Heap} {b : BufId} {rb : XtpBuf} {s t : PoolUse} {l : Request}

theorem plain_push {make : XtpBufPool → XtpBuf} (hmake : ∀ bp, (make bp).size = 0)
    (hP : Plain h) : Plain (pushBlock make h) := by
  intro b rb hrb
  simp only [pushBlock, Store.push_some] at hrb
  rcases hrb with ⟨-,rfl⟩ | ⟨-,hrb⟩
  · exact hmake h.bp
  · exact hP b rb hrb

theorem plain_grown {make : XtpBufPool → XtpBuf} {j : ℕ} (hmake : ∀ bp, (make bp).size = 0)
    (hP : Plain h) : Plain (grown make j h) :=
  grown_keeps Plain (fun _ => plain_push hmake) hP

theorem plain_taken {rest : List BufId} (hP : Plain h) (hrb : h.bufs.get b = some rb) :
    Plain (takenHead h b rest rb) := by
  intro a ra hra
  simp only [takenHead, Store.set_some] at hra
  rcases hra with ⟨rfl,rfl⟩ | ⟨-,hra⟩
  · exact hP a rb hrb
  · exact hP a ra hra

theorem gained_all {num : ℤ} (hk : amount num h ≤ h.mallocs.length)
    (hall : ∀ a ∈ h.mallocs, a = true) : gained num h = amount num h := by
  have htake : ∀ a ∈ h.mallocs.take (amount num h), true = a :=
    fun a ha => (hall a (List.mem_of_mem_take ha)).symm
  have hlen : (h.mallocs.take (amount num h)).length = amount num h := by
    rw [List.length_take]
    exact Nat.min_eq_left hk
  exact (List.count_eq_length.mpr htake).trans hlen

/-- The pool before its first block is taken: as it was, or twice as large. -/
theorem obtained_all (hO : Obtained b h h') (hmax : 0 < h.bp.max)
    (hall : ∀ a ∈ h.mallocs, a = true) :
    (h.bp.head ≠ [] ∧ h'.bp.head.length+1 = h.bp.head.length ∧ h'.bp.max = h.bp.max) ∨
    (h.bp.head = [] ∧ h'.bp.head.length+1 = h.bp.max.toNat) := by
  have htaken : ∀ {h : Heap} {rest rb}, h.bp.head = b::rest →
      (takenHead h b rest rb).bp.head.length+1 = h.bp.head.length := by
    intro h rest rb hb
    rw [hb]
    rfl
  cases hO with
  | taken hb hrb => exact Or.inl ⟨by simp [hb], htaken hb, rfl⟩
  | grown hnil hk hfits hlater =>
    have hbump : (bumped h).bp.max = h.bp.max := by simp [bumped, hmax.ne']
    have hasked : amount 0 h = h.bp.max.toNat := by
      unfold amount
      rw [if_neg (not_not.mpr rfl), hbump]
    have hgot : gained 0 h = h.bp.max.toNat := (gained_all hk hall).trans hasked
    have hlen : (reallocated 0 h).bp.head.length = h.bp.max.toNat := by
      simp only [reallocated, grown_frame, hgot, bumped, hnil, List.length_nil, Nat.zero_add]
    right
    cases hlater with
    | taken hb hrb => exact ⟨hnil, (htaken hb).trans hlen⟩
    | grown hempty =>
      rw [hempty, List.length_nil] at hlen
      omega

theorem obtained_plain (hO : Obtained b h h') (hP : Plain h) :
    Plain h' ∧ h'.bp.size = h.bp.size := by
  induction hO with
  | taken hb hrb => exact ⟨plain_taken hP hrb, rfl⟩
  | @grown h h' hnil hk hfits hlater ih =>
    obtain ⟨hplain,hsize⟩ := ih (plain_grown (fun _ => rfl) hP)
    refine ⟨hplain, hsize.trans ?_⟩
    simp [reallocated, bumped]

theorem growing_counting (hG : Growing s) : 0 < s.heap.bp.max := by
  have henough := hG.peak.enough
  rw [hG.counters.max]
  omega

theorem growing_small (hG : Growing s) (hpeak : s.peak ≤ 2^30) : total s ≤ 2^30 := by
  have hle : s.heap.bp.head.length+s.out.length ≤ 2^30 :=
    hG.peak.least.2 ⟨30, rfl, max_le (by decide) hpeak⟩
  unfold total
  exact_mod_cast hle

theorem stepped_peak (h : Stepped s l.mallocs l.call t) : s.peak ≤ t.peak := by
  obtain ⟨call,mallocs⟩ := l
  cases h with
  | alloc => exact Nat.le_max_left _ _
  | ralloc => exact Nat.le_refl _
  | adjust => exact Nat.le_refl _
  | discard => exact Nat.le_refl _
  | putBack => exact Nat.le_refl _

theorem growing_counts (hG : Growing s) (hpeak : t.peak ≤ 2^30) (ho : Plenty s l)
    (h : Stepped s l.mallocs l.call t) : Counting s l := by
  have hpos := growing_counting hG
  have hmax := hG.counters.max
  obtain ⟨call,mallocs⟩ := l
  cases h with
  | @alloc b h' hO =>
    refine ⟨hpos.ne', ?_⟩
    have hout : s.out.length+1 ≤ 2^30 := (Nat.le_max_right _ _).trans hpeak
    by_cases hnil : s.heap.bp.head = []
    · obtain ⟨hlen,-⟩ := obtained_counts hO hpos.le hnil
      have hgrant : granted s ⟨.alloc, mallocs⟩ = h'.bp.head.length+1 :=
        (if_pos hnil).trans hlen.symm
      rcases obtained_all hO hpos ho.2 with ⟨hne,-⟩ | ⟨-,hgot⟩
      · exact absurd hnil hne
      · rw [hnil, List.length_nil] at hmax
        rw [hgrant, hgot]
        simp only
        omega
    · have hgrant : granted s ⟨.alloc, mallocs⟩ = 0 := if_neg hnil
      have hsmall := growing_small hG ((stepped_peak (.alloc hO)).trans hpeak)
      rw [hgrant, hmax]
      simp only [total] at hsmall
      push_cast
      omega
  | ralloc =>
    obtain ⟨ho | ⟨b,ho⟩,-⟩ := ho <;> cases ho
  | adjust => trivial
  | discard => trivial
  | putBack => trivial

theorem stepped_growing (hG : Growing s) (hpeak : t.peak ≤ 2^30) (ho : Plenty s l)
    (h : Stepped s l.mallocs l.call t) : Growing t := by
  have hpos := growing_counting hG
  have hsmall := growing_small hG ((stepped_peak h).trans hpeak)
  have hC := (stepped_counters hG.counters (by omega) h).1.mpr (growing_counts hG hpeak ho h)
  obtain ⟨call,mallocs⟩ := l
  cases h with
  | @alloc b h' hO =>
    obtain ⟨hplain,hsize⟩ := obtained_plain hO hG.plain
    have hmax := hG.counters.max
    refine ⟨hC, ?_, hsize ▸ hG.size, hplain⟩
    rcases obtained_all hO hpos ho.2 with ⟨hne,hlen,-⟩ | ⟨hnil,hlen⟩
    · have hsame : h'.bp.head.length+(b::s.out).length = s.heap.bp.head.length+s.out.length := by
        rw [List.length_cons, ← hlen]
        omega
      rw [hsame]
      have hfree := List.length_pos_iff.mpr hne
      exact hG.peak.within (by simp only at hfree; omega)
    · simp only at hnil
      rw [hnil, List.length_nil] at hmax
      have htwice : h'.bp.head.length+(b::s.out).length =
          2*(s.heap.bp.head.length+s.out.length) := by
        rw [hnil, List.length_cons, List.length_nil]
        simp only at hlen
        omega
      have hpeak := hG.peak.exceeded
      rw [hnil, List.length_nil, Nat.zero_add] at hpeak htwice
      rw [htwice]
      exact hpeak
  | ralloc =>
    obtain ⟨ho | ⟨b,ho⟩,-⟩ := ho <;> cases ho
  | adjust =>
    obtain ⟨ho | ⟨b,ho⟩,-⟩ := ho <;> cases ho
  | @discard b rb hb hrb hbig =>
    have hplain := hG.plain b rb hrb
    have hsize := hG.size
    omega
  | @putBack b rb hb hrb hfits =>
    refine ⟨hC, ?_, hG.size, hG.plain⟩
    have hlen := List.length_erase_of_mem hb
    have hmem := List.length_pos_of_mem hb
    have hsame : (b::s.heap.bp.head).length+(s.out.erase b).length =
        s.heap.bp.head.length+s.out.length := by
      rw [List.length_cons, hlen]
      omega
    exact hsame ▸ hG.peak

theorem start_growing (h : (pool One).start s) : Growing s := by
  have hsized : ∀ max size mallocs, One max size mallocs → Sized max size mallocs := by
    rintro max size mallocs ⟨rfl,-⟩
    exact ⟨by decide, by decide⟩
  have hC := (start_counters hsized h).1
  obtain ⟨max,size,mallocs,⟨rfl,hsize,hall⟩,hk,rfl⟩ := start_grown h
  obtain ⟨a,rest,rfl⟩ := List.exists_cons_of_length_pos (Nat.lt_of_lt_of_le Nat.one_pos hk)
  obtain rfl := hall a (List.mem_cons_self ..)
  refine ⟨hC, Doubling.at_start, hsize, plain_grown (fun _ => rfl) ?_⟩
  rintro b rb ⟨⟩

theorem reaches_growing (h : Reaches (pool One) Plenty s) : s.peak ≤ 2^30 → Growing s :=
  reaches_along (fun s => s.peak ≤ 2^30 → Growing s) (fun _ hs _ => start_growing hs)
    (fun _ _ _ _ hG ho hs hpeak =>
      stepped_growing (hG ((stepped_peak hs).trans hpeak)) hpeak ho hs) h

/-- The pool grows only for a caller that holds every buffer. -/
theorem grows_full (hG : Growing s) (ho : Plenty s l) (h : Stepped s l.mallocs l.call t)
    (hne : t.heap.bp.max ≠ s.heap.bp.max) :
    s.heap.bp.head = [] ∧ s.heap.bp.max = s.out.length := by
  have hmax := hG.counters.max
  have hpos := growing_counting hG
  obtain ⟨call,mallocs⟩ := l
  cases h with
  | alloc hO =>
    rcases obtained_all hO hpos ho.2 with ⟨-,-,hsame⟩ | ⟨hnil,-⟩
    · exact absurd hsame hne
    · refine ⟨hnil, ?_⟩
      simp only at hnil
      rw [hnil] at hmax
      simpa using hmax
  | ralloc =>
    obtain ⟨ho | ⟨b,ho⟩,-⟩ := ho <;> cases ho
  | adjust =>
    obtain ⟨ho | ⟨b,ho⟩,-⟩ := ho <;> cases ho
  | @discard b rb hb hrb hbig =>
    have hplain := hG.plain b rb hrb
    have hsize := hG.size
    omega
  | putBack => exact absurd rfl hne

/-- The number of blocks is the least power of two that serves the peak, and
stays in the range of an `int`. -/
theorem growth_law (h : Reaches (pool One) Plenty s) (hpeak : s.peak ≤ 2^30) :
    (∃ cap : ℕ, s.heap.bp.max = cap ∧ IsLeast {m | ∃ k, m = 2^k ∧ max 1 s.peak ≤ m} cap) ∧
    s.heap.bp.max < 2*max 1 s.peak ∧
    (∀ l t, Plenty s l → (pool One).step s l t → t.heap.bp.max ≠ s.heap.bp.max →
      s.heap.bp.head = [] ∧ s.heap.bp.max = s.out.length) ∧
    s.heap.bp.max ≤ 2^30 := by
  have hG := reaches_growing h hpeak
  have hmax : s.heap.bp.max = ((s.heap.bp.head.length+s.out.length : ℕ) : ℤ) := by
    rw [hG.counters.max]
    push_cast
    rfl
  have hleast := hG.peak.least
  have htight := hG.peak.tight
  refine ⟨⟨_, hmax, hleast⟩, ?_, ?_, ?_⟩
  · rw [hmax]
    exact_mod_cast htight
  · exact fun l t ho hs => grows_full hG ho (step_cases (reaches_sane h) hs)
  · rw [hG.counters.max]
    exact growing_small hG hpeak

theorem growth_law_three : ∃ s, Reaches (pool One) Plenty s ∧ s.peak = 3 ∧
    s.heap.bp.max < 2*max 1 s.peak := by
  have hplay : ((begun 1 nodeBufsiz [true]).bind (serve Plenty ·
      [⟨.alloc, []⟩, ⟨.alloc, [true]⟩, ⟨.alloc, [true, true]⟩, ⟨.free 0, []⟩])).any
      (fun s => s.peak = 3) = true := by
    decide +kernel
  obtain ⟨s,hs,hpeak⟩ := begun_reaches One _ (by unfold One; decide) hplay
  have hthree : s.peak = 3 := of_decide_eq_true hpeak
  exact ⟨s, hs, hthree, (growth_law hs (by rw [hthree]; decide)).2.1⟩

end TcpFunnel.PoolGrowth
