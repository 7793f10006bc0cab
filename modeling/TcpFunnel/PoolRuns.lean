import TcpFunnel.PipeSimulation
import TcpFunnel.BufferAdjust
import TcpFunnel.Library.Reachability

/-!
# The pool by itself

`x_buf_init` and then any calls of the functions of the pool, by a caller that
only passes in buffers it has been given. Each call comes with the answers of
the allocator it may use up. The buffers that the caller holds are outstanding.
-/

set_option autoImplicit false

namespace TcpFunnel.PoolRuns
open TcpFunnel.BufferPool TcpFunnel.BufferAdjust TcpFunnel.Reachability TcpFunnel.EventLoop
open TcpFunnel.TransferRuns TcpFunnel.PipeSimulation TcpFunnel.CInt

def poolBlock (bp : XtpBufPool) : XtpBuf := rewound (zeroedBuf bp) bp

def grown (make : XtpBufPool → XtpBuf) (j : ℕ) (h : Heap) : Heap := (pushBlock make)^[j] h

section growing

variable {make : XtpBufPool → XtpBuf} {h h' : Heap} {j k : ℕ}

theorem grown_zero : grown make 0 h = h := rfl

theorem grown_succ : grown make (j+1) h = grown make j (pushBlock make h) := rfl

theorem grown_keeps (P : Heap → Prop) (hpush : ∀ h, P h → P (pushBlock make h)) (hP : P h) :
    P (grown make j h) := by
  induction j generalizing h with
  | zero => exact hP
  | succ j ih => exact ih (hpush h hP)

@[simp] theorem grown_frame : (grown make j h).bp.size = h.bp.size ∧
    (grown make j h).bp.offset = h.bp.offset ∧ (grown make j h).bp.n = raised h.bp.n j ∧
    (grown make j h).bp.max = raised h.bp.max j ∧
    (grown make j h).bp.head.length = h.bp.head.length+j := by
  induction j generalizing h with
  | zero => exact ⟨rfl, rfl, rfl, rfl, rfl⟩
  | succ j ih =>
    obtain ⟨h1,h2,h3,h4,h5⟩ := @ih (pushBlock make h)
    rw [grown_succ, h1, h2, h3, h4, h5, raised_succ, raised_succ]
    refine ⟨rfl, rfl, rfl, rfl, ?_⟩
    simp only [pushBlock, List.length_cons]
    omega

def HeaderFits (h : Heap) : Prop := (h.bp.offset : ℤ) ≤ h.bp.size

instance (h : Heap) : Decidable (HeaderFits h) := inferInstanceAs (Decidable (_ ≤ _))

theorem addBlocks_grown (hk : k ≤ h.mallocs.length) (hroom : HeaderFits h) :
    (addBlocks make k).run h = .ok () (grown make ((h.mallocs.take k).count true)
      { h with mallocs := h.mallocs.drop k }) := by
  induction k generalizing h with
  | zero => rfl
  | succ k ih =>
    cases hm : h.mallocs with
    | nil =>
      rw [hm] at hk
      cases hk
    | cons got rest =>
      have hrest : k ≤ rest.length := by
        rw [hm] at hk
        exact Nat.le_of_succ_le_succ hk
      unfold addBlocks
      rw [EStateM.run_bind, malloc_run hm]
      cases got with
      | false =>
        have hlater := @ih { h with mallocs := rest } hrest hroom
        simpa using hlater
      | true =>
        have hlater := @ih (pushBlock make { h with mallocs := rest }) hrest hroom
        simp only [if_true, EStateM.run_bind, EStateM.run_get]
        rw [if_neg (Int.not_lt.mpr hroom)]
        simpa [grown_succ, pushBlock] using hlater

/-- The loop only returns if there were answers enough, and room for a header
in every block. -/
theorem addBlocks_ok (hrun : (addBlocks make k).run h = .ok () h') :
    k ≤ h.mallocs.length ∧ (true ∈ h.mallocs.take k → HeaderFits h) ∧
    h' = grown make ((h.mallocs.take k).count true) { h with mallocs := h.mallocs.drop k } := by
  induction k generalizing h with
  | zero =>
    cases hrun
    exact ⟨Nat.zero_le _, by simp, rfl⟩
  | succ k ih =>
    unfold addBlocks at hrun
    rw [EStateM.run_bind] at hrun
    cases hm : h.mallocs with
    | nil =>
      rw [malloc_none hm] at hrun
      cases hrun
    | cons got rest =>
      rw [malloc_run hm] at hrun
      cases got with
      | false =>
        obtain ⟨hk,hroom,hnext⟩ := @ih { h with mallocs := rest } hrun
        exact ⟨Nat.succ_le_succ hk, by simpa [HeaderFits] using hroom, by simpa using hnext⟩
      | true =>
        simp only [if_true, EStateM.run_bind, EStateM.run_get] at hrun
        by_cases hsmall : h.bp.size < h.bp.offset
        · rw [if_pos hsmall] at hrun
          cases hrun
        · rw [if_neg hsmall] at hrun
          obtain ⟨hk,-,hnext⟩ := @ih (pushBlock make { h with mallocs := rest }) hrun
          refine ⟨Nat.succ_le_succ hk, fun _ => Int.not_lt.mp hsmall, ?_⟩
          simpa [grown_succ, pushBlock] using hnext

end growing

/-- `x_buf_ralloc` starts by counting a block that does not exist when the
counter is at zero. -/
def bumped (h : Heap) : Heap := { h with bp.max := if h.bp.max ≠ 0 then h.bp.max else 1 }

def amount (num : ℤ) (h : Heap) : ℕ := (if num ≠ 0 then num else (bumped h).bp.max).toNat

def gained (num : ℤ) (h : Heap) : ℕ := (h.mallocs.take (amount num h)).count true

def reallocated (num : ℤ) (h : Heap) : Heap :=
  grown poolBlock (gained num h) { bumped h with mallocs := h.mallocs.drop (amount num h) }

/-- The buffer `b` is handed out, by a pool that has first grown if nothing
was free. -/
inductive Obtained (b : BufId) : Heap → Heap → Prop
  | taken {h : Heap} {rest : List BufId} {rb : XtpBuf} (hb : h.bp.head = b::rest)
      (hrb : h.bufs.get b = some rb) : Obtained b h (takenHead h b rest rb)
  | grown {h h' : Heap} (hnil : h.bp.head = []) (hk : amount 0 h ≤ h.mallocs.length)
      (hroom : true ∈ h.mallocs.take (amount 0 h) → HeaderFits h)
      (hlater : Obtained b (reallocated 0 h) h') : Obtained b h h'

def putBack (h : Heap) (b : BufId) : Heap :=
  { h with bp := { h.bp with head := b::h.bp.head, n := cInt (h.bp.n+1) } }

def discarded (h : Heap) (b : BufId) : Heap :=
  { h with bufs := h.bufs.free b, bp.max := cInt (h.bp.max-1) }

section calls

variable {h h' : Heap} {b : BufId} {rb : XtpBuf} {num size : ℤ}

/-- The number of blocks asked for at a time does not change while none is
had. -/
theorem amount_bumped (hmax : 0 ≤ h.bp.max) (l : List Bool) :
    amount 0 { bumped h with mallocs := l } = amount 0 h ∧ 0 < amount 0 h := by
  unfold amount bumped
  by_cases hzero : h.bp.max = 0
  · simp [hzero]
  · simp only [ne_eq, not_true_eq_false, if_false, hzero, not_false_eq_true, if_true, true_and]
    omega

theorem headerFits_reallocated : HeaderFits (reallocated num h) ↔ HeaderFits h := by
  simp only [HeaderFits, reallocated, grown_frame, bumped]

theorem ralloc_eq (num : ℤ) (h : Heap) :
    (xBufRalloc num).run h = (addBlocks poolBlock (amount num h)).run (bumped h) := rfl

theorem ralloc_run (hk : amount num h ≤ h.mallocs.length) (hroom : HeaderFits h) :
    (xBufRalloc num).run h = .ok () (reallocated num h) := by
  rw [ralloc_eq]
  exact addBlocks_grown (h := bumped h) hk hroom

theorem ralloc_ok (hrun : (xBufRalloc num).run h = .ok () h') :
    amount num h ≤ h.mallocs.length ∧ (true ∈ h.mallocs.take (amount num h) → HeaderFits h) ∧
    h' = reallocated num h := by
  rw [ralloc_eq] at hrun
  exact addBlocks_ok hrun

theorem alloc_obtained (k : ℕ) {h : Heap} (hrun : (xBufAllocAt k).run h = .ok b h') :
    Obtained b h h' := by
  induction k generalizing h with
  | zero => cases hrun
  | succ k ih =>
    unfold xBufAllocAt at hrun
    simp only [EStateM.run_bind, EStateM.run_get] at hrun
    cases hhead : h.bp.head with
    | nil =>
      simp only [hhead, EStateM.run_bind] at hrun
      cases hgrow : (xBufRalloc 0).run h with
      | error e h1 =>
        rw [hgrow] at hrun
        cases hrun
      | ok u h1 =>
        rw [hgrow] at hrun
        obtain ⟨hk,hroom,rfl⟩ := ralloc_ok hgrow
        exact .grown hhead hk hroom (ih hrun)
    | cons a rest =>
      simp only [hhead, EStateM.run_bind] at hrun
      cases hget : h.bufs.get a with
      | none =>
        have hbuf : (buf a).run h = .error .useAfterFree h := by
          simp only [buf, EStateM.run_bind, EStateM.run_get, hget]
          rfl
        rw [hbuf] at hrun
        cases hrun
      | some rb =>
        rw [buf_run hget] at hrun
        cases hrun
        exact .taken hhead hget

theorem free_run (hrb : h.bufs.get b = some rb) (hbp : rb.bp = true) : (xBufFree b).run h =
    .ok () (if rb.size > h.bp.size then discarded h b else putBack h b) := by
  unfold xBufFree
  simp only [EStateM.run_bind, buf_run hrb, hbp, if_true, EStateM.run_get]
  split <;> rfl

inductive Adjusted (h : Heap) (b : BufId) (rb : XtpBuf) (size : ℤ) : Option BufId → Heap → Prop
  | kept (hle : size ≤ rb.size) : Adjusted h b rb size (some b) h
  | refused (hlt : rb.size < size) (rest : List Bool) :
      Adjusted h b rb size none { h with mallocs := rest }
  | moved (hlt : rb.size < size) (hpos : 0 ≤ adjustedSize h.bp size) (rest : List Bool) :
      Adjusted h b rb size (some b) { h with
        mallocs := rest, bufs := h.bufs.set b (resized rb h.bp (adjustedSize h.bp size)) }

theorem adjust_kept (hrb : h.bufs.get b = some rb) (hle : size ≤ rb.size) :
    (xBufAdjust b size).run h = .ok (some b) h := by
  unfold xBufAdjust
  simp only [EStateM.run_bind, buf_run hrb]
  rw [if_pos hle]
  rfl

theorem adjust_cases {res : Option BufId} (hrb : h.bufs.get b = some rb) (hbp : rb.bp = true)
    (hrun : (xBufAdjust b size).run h = .ok res h') : Adjusted h b rb size res h' := by
  by_cases hle : size ≤ rb.size
  · rw [adjust_kept hrb hle] at hrun
    cases hrun
    exact .kept hle
  · unfold xBufAdjust at hrun
    simp only [EStateM.run_bind, buf_run hrb] at hrun
    rw [if_neg hle] at hrun
    simp only [hbp, not_true_eq_false, if_false, EStateM.run_bind, EStateM.run_get, realloc] at hrun
    cases hm : h.mallocs with
    | nil =>
      rw [malloc_none hm] at hrun
      cases hrun
    | cons got rest =>
      rw [malloc_run hm] at hrun
      cases got with
      | false =>
        cases hrun
        exact .refused (Int.lt_of_not_ge hle) rest
      | true =>
        by_cases hneg : adjustedSize h.bp size < 0
        · simp only [hneg, and_self, if_true] at hrun
          cases hrun
        · simp only [hneg, and_false, if_false] at hrun
          cases hrun
          exact .moved (Int.lt_of_not_ge hle) (Int.not_lt.mp hneg) rest

end calls

/-- The pool, the buffers outstanding, and the most that ever were. -/
structure PoolUse where
  heap : Heap
  out : List BufId
  peak : ℕ

inductive Call where
  | alloc
  | ralloc (num : ℤ)
  | adjust (b : BufId) (size : ℤ)
  | free (b : BufId)
  deriving DecidableEq, Repr

structure Request where
  call : Call
  mallocs : List Bool
  deriving DecidableEq, Repr

/-- What the caller sees to: an argument of type `int`, and no buffer but one
it has been given. -/
def Call.Proper (s : PoolUse) : Call → Prop
  | .alloc => True
  | .ralloc num => 0 ≤ num ∧ num < 2147483648
  | .adjust b size => b ∈ s.out ∧ -2147483648 ≤ size ∧ size < 2147483648
  | .free b => b ∈ s.out

instance (s : PoolUse) (call : Call) : Decidable (call.Proper s) := by
  cases call <;> unfold Call.Proper <;> infer_instance

def perform (s : PoolUse) (l : Request) : Option PoolUse :=
  let h := { s.heap with mallocs := l.mallocs }
  match l.call with
  | .alloc =>
    match xBufAlloc.run h with
    | .ok b h' => some ⟨h', b::s.out, max s.peak (s.out.length+1)⟩
    | .error .. => none
  | .ralloc num =>
    match (xBufRalloc num).run h with
    | .ok _ h' => some { s with heap := h' }
    | .error .. => none
  | .adjust b size =>
    match (xBufAdjust b size).run h with
    | .ok _ h' => some { s with heap := h' }
    | .error .. => none
  | .free b =>
    match (xBufFree b).run h with
    | .ok _ h' => some { s with heap := h', out := s.out.erase b }
    | .error .. => none

def pool (init : ℤ → ℤ → List Bool → Prop) : System PoolUse Request where
  start s := ∃ max size mallocs h, init max size mallocs ∧
    (xBufInit max size).run (emptyHeap mallocs) = .ok () h ∧ s = ⟨h, [], 0⟩
  step s l t := l.call.Proper s ∧ perform s l = some t

/-- Every block is on the free list or outstanding, once, and belongs to the
pool. -/
structure Sane (h : Heap) (out : List BufId) : Prop where
  wellFormed : h.bufs.WellFormed
  nodup : (h.bp.head ++ out).Nodup
  live : ∀ b ∈ h.bp.head ++ out, ∃ rb, h.bufs.get b = some rb ∧ rb.bp = true

section sanity

variable {h h' : Heap} {out : List BufId} {b : BufId} {rb : XtpBuf}

theorem Sane.lt (hS : Sane h out) (hb : b ∈ h.bp.head ++ out) : b < h.bufs.next := by
  obtain ⟨rb,hrb,-⟩ := hS.live b hb
  exact hS.wellFormed.lt hrb

theorem sane_push {make : XtpBufPool → XtpBuf} (hmake : ∀ bp, (make bp).bp = true)
    (hS : Sane h out) : Sane (pushBlock make h) out where
  wellFormed := hS.wellFormed.push _
  nodup := by
    apply List.nodup_cons.mpr
    exact ⟨fun hb => Nat.lt_irrefl _ (hS.lt hb), hS.nodup⟩
  live := by
    intro b hb
    by_cases hnew : b = h.bufs.next
    · exact ⟨make h.bp, by simp [pushBlock, hnew], hmake h.bp⟩
    · obtain ⟨rb,hrb,hbp⟩ := hS.live b ((List.mem_cons.mp hb).resolve_left hnew)
      exact ⟨rb, by simp [pushBlock, hnew, hrb], hbp⟩

theorem sane_same (hS : Sane h out) (hbufs : h'.bufs = h.bufs) (hhead : h'.bp.head = h.bp.head) :
    Sane h' out := by
  obtain ⟨h1,h2,h3⟩ := hS
  exact ⟨hbufs ▸ h1, hhead ▸ h2, by rw [hbufs, hhead]; exact h3⟩

theorem sane_grown {make : XtpBufPool → XtpBuf} {j : ℕ} (hmake : ∀ bp, (make bp).bp = true)
    (hS : Sane h out) : Sane (grown make j h) out :=
  grown_keeps (Sane · out) (fun _ => sane_push hmake) hS

theorem sane_reallocated {num : ℤ} (hS : Sane h out) : Sane (reallocated num h) out :=
  sane_grown (fun _ => rfl) (sane_same hS rfl rfl)

theorem sane_taken {rest : List BufId} (hS : Sane h out) (hb : h.bp.head = b::rest)
    (hrb : h.bufs.get b = some rb) : Sane (takenHead h b rest rb) (b::out) := by
  have hperm : (rest ++ b::out).Perm (h.bp.head ++ out) := by
    rw [hb]
    exact List.perm_middle
  refine ⟨hS.wellFormed.set (hS.wellFormed.lt hrb) _, hperm.nodup_iff.mpr hS.nodup, fun a ha => ?_⟩
  obtain ⟨ra,hra,hbp⟩ := hS.live a (hperm.mem_iff.mp ha)
  by_cases hab : a = b
  · subst hab
    cases hrb.symm.trans hra
    exact ⟨rewound rb h.bp, by simp [takenHead], hbp⟩
  · exact ⟨ra, by simp [takenHead, hab, hra], hbp⟩

theorem obtained_sane (hO : Obtained b h h') (hS : Sane h out) :
    b ∉ out ∧ Sane h' (b::out) := by
  induction hO with
  | @taken h rest rb hb hrb =>
    refine ⟨fun hout => ?_, sane_taken hS hb hrb⟩
    have hnodup := hS.nodup
    rw [hb] at hnodup
    exact (List.nodup_cons.mp hnodup).1 (List.mem_append_right rest hout)
  | grown hnil hk hroom hlater ih => exact ih (sane_reallocated hS)

theorem sane_putBack (hS : Sane h out) (hb : b ∈ out) : Sane (putBack h b) (out.erase b) := by
  have hperm : (b::h.bp.head ++ out.erase b).Perm (h.bp.head ++ out) :=
    List.perm_middle.symm.trans ((List.perm_cons_erase hb).symm.append_left _)
  exact ⟨hS.wellFormed, hperm.nodup_iff.mpr hS.nodup,
    fun a ha => hS.live a (hperm.mem_iff.mp ha)⟩

theorem sane_discarded (hS : Sane h out) (hb : b ∈ out) : Sane (discarded h b) (out.erase b) := by
  have hperm : (b::(h.bp.head ++ out.erase b)).Perm (h.bp.head ++ out) :=
    List.perm_middle.symm.trans ((List.perm_cons_erase hb).symm.append_left _)
  have hnodup := List.nodup_cons.mp (hperm.nodup_iff.mpr hS.nodup)
  refine ⟨hS.wellFormed.free b, hnodup.2, fun a ha => ?_⟩
  obtain ⟨ra,hra,hbp⟩ := hS.live a (hperm.mem_iff.mp (List.mem_cons_of_mem b ha))
  have hab : a ≠ b := by
    rintro rfl
    exact hnodup.1 ha
  exact ⟨ra, by simp [discarded, hab, hra], hbp⟩

theorem sane_set {rb' : XtpBuf} {l : List Bool} (hS : Sane h out) (hrb : h.bufs.get b = some rb)
    (hbp : rb'.bp = rb.bp) : Sane { h with mallocs := l, bufs := h.bufs.set b rb' } out := by
  refine ⟨hS.wellFormed.set (hS.wellFormed.lt hrb) _, hS.nodup, fun a ha => ?_⟩
  obtain ⟨ra,hra,hback⟩ := hS.live a ha
  by_cases hab : a = b
  · subst hab
    cases hrb.symm.trans hra
    exact ⟨rb', by simp, hbp.trans hback⟩
  · exact ⟨ra, by simp [hab, hra], hback⟩

end sanity

inductive Stepped (s : PoolUse) (l : List Bool) : Call → PoolUse → Prop
  | alloc {b h'} (h : Obtained b { s.heap with mallocs := l } h') :
      Stepped s l .alloc ⟨h', b::s.out, max s.peak (s.out.length+1)⟩
  | ralloc {num} (hnum : 0 ≤ num) (hk : amount num { s.heap with mallocs := l } ≤ l.length) :
      Stepped s l (.ralloc num) { s with heap := reallocated num { s.heap with mallocs := l } }
  | adjust {b size rb res h'} (hb : b ∈ s.out) (hrb : s.heap.bufs.get b = some rb)
      (hlo : -2147483648 ≤ size) (hhi : size < 2147483648)
      (h : Adjusted { s.heap with mallocs := l } b rb size res h') :
      Stepped s l (.adjust b size) { s with heap := h' }
  | discard {b rb} (hb : b ∈ s.out) (hrb : s.heap.bufs.get b = some rb)
      (hbig : s.heap.bp.size < rb.size) :
      Stepped s l (.free b)
        { s with heap := discarded { s.heap with mallocs := l } b, out := s.out.erase b }
  | putBack {b rb} (hb : b ∈ s.out) (hrb : s.heap.bufs.get b = some rb)
      (hfits : rb.size ≤ s.heap.bp.size) :
      Stepped s l (.free b)
        { s with heap := putBack { s.heap with mallocs := l } b, out := s.out.erase b }

section steps

variable {init : ℤ → ℤ → List Bool → Prop} {ok : PoolUse → Request → Prop} {s t : PoolUse}
variable {l : Request}

theorem step_cases (hS : Sane s.heap s.out) (h : (pool init).step s l t) :
    Stepped s l.mallocs l.call t := by
  obtain ⟨call,mallocs⟩ := l
  obtain ⟨hproper,hrun⟩ := h
  cases call with
  | alloc =>
    simp only [perform] at hrun
    cases halloc : xBufAlloc.run { s.heap with mallocs := mallocs } with
    | error e h' =>
      rw [halloc] at hrun
      cases hrun
    | ok b h' =>
      rw [halloc] at hrun
      cases hrun
      exact .alloc (alloc_obtained (mallocs.length+1) halloc)
  | ralloc num =>
    simp only [perform] at hrun
    cases hralloc : (xBufRalloc num).run { s.heap with mallocs := mallocs } with
    | error e h' =>
      rw [hralloc] at hrun
      cases hrun
    | ok u h' =>
      rw [hralloc] at hrun
      cases hrun
      obtain ⟨hk,-,rfl⟩ := ralloc_ok hralloc
      exact .ralloc hproper.1 hk
  | adjust b size =>
    obtain ⟨hb,hlo,hhi⟩ := hproper
    obtain ⟨rb,hrb,hbp⟩ := hS.live b (List.mem_append_right _ hb)
    simp only [perform] at hrun
    cases hadjust : (xBufAdjust b size).run { s.heap with mallocs := mallocs } with
    | error e h' =>
      rw [hadjust] at hrun
      cases hrun
    | ok res h' =>
      rw [hadjust] at hrun
      cases hrun
      exact .adjust hb hrb hlo hhi (adjust_cases hrb hbp hadjust)
  | free b =>
    have hb : b ∈ s.out := hproper
    obtain ⟨rb,hrb,hbp⟩ := hS.live b (List.mem_append_right _ hb)
    have hfree := free_run (h := { s.heap with mallocs := mallocs }) hrb hbp
    simp only [perform, hfree] at hrun
    cases hrun
    by_cases hbig : rb.size > s.heap.bp.size
    · rw [if_pos hbig]
      exact .discard hb hrb hbig
    · rw [if_neg hbig]
      exact .putBack hb hrb (Int.not_lt.mp hbig)

theorem stepped_sane {mallocs : List Bool} {call : Call} (h : Stepped s mallocs call t)
    (hS : Sane s.heap s.out) : Sane t.heap t.out := by
  have hS' : Sane { s.heap with mallocs := mallocs } s.out := sane_same hS rfl rfl
  cases h with
  | alloc hO => exact (obtained_sane hO hS').2
  | ralloc => exact sane_reallocated hS'
  | adjust hb hrb hlo hhi hA =>
    cases hA with
    | kept => exact hS'
    | refused hlt rest => exact sane_same hS rfl rfl
    | moved hlt hpos rest => exact sane_set hS' hrb rfl
  | discard hb => exact sane_discarded hS' hb
  | putBack hb => exact sane_putBack hS' hb

theorem start_grown (h : (pool init).start s) : ∃ max size mallocs, init max size mallocs ∧
    max.toNat ≤ mallocs.length ∧ s = ⟨grown zeroedBuf ((mallocs.take max.toNat).count true)
      ⟨⟨0, 0, size, sizeofXtpBuf, []⟩, Store.empty, mallocs.drop max.toNat⟩, [], 0⟩ := by
  obtain ⟨max,size,mallocs,heap,hinit,hrun,rfl⟩ := h
  have heq : (xBufInit max size).run (emptyHeap mallocs) =
      (addBlocks zeroedBuf max.toNat).run
        ⟨⟨0, 0, size, sizeofXtpBuf, []⟩, Store.empty, mallocs⟩ := rfl
  rw [heq] at hrun
  obtain ⟨hk,-,rfl⟩ := addBlocks_ok hrun
  exact ⟨max, size, mallocs, hinit, hk, rfl⟩

theorem start_sane (h : (pool init).start s) : Sane s.heap s.out := by
  obtain ⟨max,size,mallocs,-,-,rfl⟩ := start_grown h
  have hempty : Sane ⟨⟨0, 0, size, sizeofXtpBuf, []⟩, Store.empty, mallocs.drop max.toNat⟩ [] :=
    ⟨Store.empty_wellFormed, by simp, by simp⟩
  exact sane_grown (fun _ => rfl) hempty

theorem reaches_sane (h : Reaches (pool init) ok s) : Sane s.heap s.out :=
  h.invariant (fun s => Sane s.heap s.out) (fun _ => start_sane)
    fun _ _ _ _ hS _ hs => stepped_sane (step_cases hS hs) hS

theorem reaches_along (P : PoolUse → Prop) (hstart : ∀ s, (pool init).start s → P s)
    (hstep : ∀ s l t, Sane s.heap s.out → P s → ok s l → Stepped s l.mallocs l.call t → P t)
    (h : Reaches (pool init) ok s) : P s :=
  h.invariant P hstart fun s l t hr hP ho hs =>
    hstep s l t (reaches_sane hr) hP ho (step_cases (reaches_sane hr) hs)

end steps

def begun (max size : ℤ) (mallocs : List Bool) : Option PoolUse :=
  match (xBufInit max size).run (emptyHeap mallocs) with
  | .ok _ h => some ⟨h, [], 0⟩
  | .error .. => none

def serve (ok : PoolUse → Request → Prop) [∀ s l, Decidable (ok s l)] :
    PoolUse → List Request → Option PoolUse
  | s, [] => some s
  | s, l::ls => if l.call.Proper s ∧ ok s l then (perform s l).bind (serve ok · ls) else none

section plays

variable {init : ℤ → ℤ → List Bool → Prop} {ok : PoolUse → Request → Prop}
variable [∀ s l, Decidable (ok s l)] {P : PoolUse → Bool}

theorem serve_reaches {s : PoolUse} (ls : List Request) (hs : Reaches (pool init) ok s)
    (h : (serve ok s ls).any P = true) : ∃ t, Reaches (pool init) ok t ∧ P t = true := by
  induction ls generalizing s with
  | nil => exact ⟨s, hs, by simpa [serve] using h⟩
  | cons l ls ih =>
    unfold serve at h
    by_cases hok : l.call.Proper s ∧ ok s l
    · rw [if_pos hok] at h
      cases hrun : perform s l with
      | none =>
        rw [hrun] at h
        cases h
      | some t =>
        rw [hrun] at h
        exact ih (.step hs hok.2 ⟨hok.1, hrun⟩) h
    · rw [if_neg hok] at h
      cases h

theorem begun_reaches (init : ℤ → ℤ → List Bool → Prop) {max size : ℤ} {mallocs : List Bool}
    (ls : List Request) (hinit : init max size mallocs)
    (h : ((begun max size mallocs).bind (serve ok · ls)).any P = true) :
    ∃ t, Reaches (pool init) ok t ∧ P t = true := by
  cases hrun : (xBufInit max size).run (emptyHeap mallocs) with
  | error e heap =>
    simp only [begun, hrun] at h
    cases h
  | ok u heap =>
    simp only [begun, hrun] at h
    exact serve_reaches ls (.start ⟨max, size, mallocs, heap, hinit, hrun, rfl⟩) h

end plays

end TcpFunnel.PoolRuns
