import Mathlib.Data.List.Perm.Subperm
import TcpFunnel.LinkedPool

/-!
# Runs of the linked pool

The calls on a pool whose free list is linked through `next` return what the
calls on the list of names return, whatever their order. At the end of any run
`x_buf_uninit` gives back every block on the free list and no other one.
-/

set_option autoImplicit false

namespace TcpFunnel.LinkedPoolRuns
open TcpFunnel.BufferPool TcpFunnel.EventLoop TcpFunnel.Links TcpFunnel.PoolRuns
open TcpFunnel.Reachability TcpFunnel.Agreement TcpFunnel.LinkedPool TcpFunnel.PipeSimulation

structure LinkedUse where
  heap : LinkedHeap
  out : List BufId
  peak : ℕ

def perform (s : LinkedUse) (l : Request) : Option LinkedUse :=
  let h := { s.heap with mallocs := l.mallocs }
  match l.call with
  | .alloc =>
    match LinkedPool.xBufAlloc.run h with
    | .ok b h' => some ⟨h', b::s.out, max s.peak (s.out.length+1)⟩
    | .error .. => none
  | .ralloc num =>
    match (LinkedPool.xBufRalloc num).run h with
    | .ok _ h' => some { s with heap := h' }
    | .error .. => none
  | .adjust b size =>
    match (LinkedPool.xBufAdjust b size).run h with
    | .ok _ h' => some { s with heap := h' }
    | .error .. => none
  | .free b =>
    match (LinkedPool.xBufFree b).run h with
    | .ok _ h' => some { s with heap := h', out := s.out.erase b }
    | .error .. => none

def LinkedUse.use (s : LinkedUse) (free : List BufId) : PoolUse where
  heap := s.heap.listed free
  out := s.out
  peak := s.peak

def begun (max size : ℤ) (mallocs : List Bool) : Option LinkedUse :=
  match (LinkedPool.xBufInit max size).run (emptyLinks mallocs) with
  | .ok _ h => some ⟨h, [], 0⟩
  | .error .. => none

def serve : LinkedUse → List Request → Option LinkedUse
  | s, [] => some s
  | s, l::ls => if l.call.Proper (s.use []) then (perform s l).bind (serve · ls) else none

structure Follows (s : LinkedUse) (t : PoolUse) : Prop where
  heap : Threads s.heap t.heap
  out : s.out = t.out
  peak : s.peak = t.peak

section runs

variable {s s' : LinkedUse} {t t' : PoolUse} {l : Request}

theorem proper_iff (h : Follows s t) : l.call.Proper (s.use []) ↔ l.call.Proper t := by
  have hout : (s.use []).out = t.out := h.out
  cases hcall : l.call <;> simp [Call.Proper, hout]

theorem alloc_agrees_all {m : LinkedHeap} {h : Heap} {out : List BufId} (hT : Threads m h)
    (hS : Sane h out) :
    Agree Threads (LinkedPool.xBufAlloc.run m) (BufferPool.xBufAlloc.run h) := by
  obtain ⟨free,rfl,hchain⟩ := hT
  exact alloc_agrees _ ⟨free, rfl, hchain⟩ hS

theorem perform_follows (h : Follows s t) (hS : Sane t.heap t.out) (hp : l.call.Proper t) :
    (perform s l = none ∧ PoolRuns.perform t l = none) ∨
    ∃ s' t', perform s l = some s' ∧ PoolRuns.perform t l = some t' ∧ Follows s' t' := by
  have hT : Threads { s.heap with mallocs := l.mallocs } { t.heap with mallocs := l.mallocs } := by
    obtain ⟨free,hrest,hchain⟩ := h.heap
    exact ⟨free, by rw [hrest]; rfl, hchain⟩
  have hS' : Sane { t.heap with mallocs := l.mallocs } t.out := sane_same hS rfl rfl
  cases hcall : l.call with
  | alloc =>
    rcases (alloc_agrees_all hT hS').result with ⟨b,m,h',hx,hy,hR⟩ | ⟨e,m,h',hx,hy⟩
    · refine .inr ⟨⟨m, b::s.out, max s.peak (s.out.length+1)⟩,
        ⟨h', b::t.out, max t.peak (t.out.length+1)⟩, ?_, ?_, hR, ?_, ?_⟩
      · simp only [perform, hcall, hx]
      · simp only [PoolRuns.perform, hcall, hy]
      · simp only [h.out]
      · simp only [h.out, h.peak]
    · exact .inl ⟨by simp only [perform, hcall, hx], by simp only [PoolRuns.perform, hcall, hy]⟩
  | ralloc num =>
    rcases (ralloc_agrees num hT hS').result with ⟨b,m,h',hx,hy,hR⟩ | ⟨e,m,h',hx,hy⟩
    · refine .inr ⟨⟨m, s.out, s.peak⟩, ⟨h', t.out, t.peak⟩, ?_, ?_, hR, h.out, h.peak⟩
      · simp only [perform, hcall, hx]
      · simp only [PoolRuns.perform, hcall, hy]
    · exact .inl ⟨by simp only [perform, hcall, hx], by simp only [PoolRuns.perform, hcall, hy]⟩
  | adjust b size =>
    rcases (adjust_agrees b size hT).result with
      ⟨_,m,h',hx,hy,hR⟩ | ⟨e,m,h',hx,hy⟩
    · refine .inr ⟨⟨m, s.out, s.peak⟩, ⟨h', t.out, t.peak⟩, ?_, ?_, hR, h.out, h.peak⟩
      · simp only [perform, hcall, hx]
      · simp only [PoolRuns.perform, hcall, hy]
    · exact .inl ⟨by simp only [perform, hcall, hx], by simp only [PoolRuns.perform, hcall, hy]⟩
  | free b =>
    have hb : b ∉ t.heap.bp.head := by
      rw [hcall] at hp
      exact fun hmem => (List.nodup_append.mp hS.nodup).2.2 b hmem b hp rfl
    rcases (free_agrees hT hb).result with ⟨_,m,h',hx,hy,hR⟩ | ⟨e,m,h',hx,hy⟩
    · refine .inr ⟨⟨m, s.out.erase b, s.peak⟩, ⟨h', t.out.erase b, t.peak⟩, ?_, ?_, hR, ?_, h.peak⟩
      · simp only [perform, hcall, hx]
      · simp only [PoolRuns.perform, hcall, hy]
      · simp only [h.out]
    · exact .inl ⟨by simp only [perform, hcall, hx], by simp only [PoolRuns.perform, hcall, hy]⟩

abbrev anyPool : System PoolUse Request := pool fun _ _ _ => True

def Paired (s : LinkedUse) (t : PoolUse) : Prop := Follows s t ∧ Reachable anyPool t

theorem begun_paired (max size : ℤ) (mallocs : List Bool) :
    Option.Rel Paired (begun max size mallocs) (PoolRuns.begun max size mallocs) := by
  unfold begun PoolRuns.begun
  rcases (init_agrees max size mallocs).result with ⟨_,m,h,hx,hy,hR⟩ | ⟨e,m,h,hx,hy⟩
  · simp only [hx, hy]
    exact .some ⟨⟨hR, rfl, rfl⟩, .start ⟨max, size, mallocs, h, trivial, hy, rfl⟩⟩
  · simp only [hx, hy]
    exact .none

theorem serve_paired (ls : List Request) (h : Paired s t) :
    Option.Rel Paired (serve s ls) (PoolRuns.serve (fun _ _ => True) t ls) := by
  induction ls generalizing s t with
  | nil => exact .some h
  | cons l ls ih =>
    unfold serve PoolRuns.serve
    by_cases hp : l.call.Proper t
    · rw [if_pos ((proper_iff h.1).mpr hp), if_pos ⟨hp, trivial⟩]
      rcases perform_follows h.1 (reaches_sane h.2) hp with ⟨hs,ht⟩ | ⟨s',t',hs,ht,hF⟩
      · rw [hs, ht]
        exact .none
      · rw [hs, ht]
        exact ih ⟨hF, .step h.2 trivial ⟨hp, ht⟩⟩
    · rw [if_neg fun hp' => hp ((proper_iff h.1).mp hp'), if_neg fun hp' => hp hp'.1]
      exact .none

theorem run_paired (max size : ℤ) (mallocs : List Bool) (ls : List Request) :
    Option.Rel Paired ((begun max size mallocs).bind (serve · ls))
      ((PoolRuns.begun max size mallocs).bind (PoolRuns.serve (fun _ _ => True) · ls)) := by
  have h := begun_paired max size mallocs
  generalize begun max size mallocs = s at h ⊢
  generalize PoolRuns.begun max size mallocs = t at h ⊢
  cases h with
  | none => exact .none
  | some h => exact serve_paired ls h

/-- Every sequence of calls returns at both levels or at none, and leaves the
same pool. -/
theorem linked_pool_agrees (max size : ℤ) (mallocs : List Bool) (ls : List Request) :
    Option.Rel Follows ((begun max size mallocs).bind (serve · ls))
      ((PoolRuns.begun max size mallocs).bind (PoolRuns.serve (fun _ _ => True) · ls)) := by
  have h := run_paired max size mallocs ls
  generalize (begun max size mallocs).bind (serve · ls) = s at h ⊢
  generalize (PoolRuns.begun max size mallocs).bind _ = t at h ⊢
  cases h with
  | none => exact .none
  | some h => exact .some h.1

end runs

/-- No block is lost: one that is there is free or outstanding. -/
def Held (h : Heap) (out : List BufId) : Prop := ∀ b, h.bufs.get b ≠ none → b ∈ h.bp.head ++ out

section held

variable {h h' : Heap} {out : List BufId} {b : BufId} {rb : XtpBuf}

theorem held_grown {make : XtpBufPool → XtpBuf} {j : ℕ} (hH : Held h out) :
    Held (grown make j h) out := by
  refine grown_keeps (Held · out) (fun h hH b hb => ?_) hH
  by_cases hnew : b = h.bufs.next
  · exact hnew ▸ List.mem_cons_self ..
  · apply List.mem_cons_of_mem
    apply hH
    simpa [BufferPool.pushBlock, hnew] using hb

theorem held_taken {rest : List BufId} (hH : Held h out) (hb : h.bp.head = b::rest) :
    Held (takenHead h b rest rb) (b::out) := by
  intro a ha
  by_cases hab : a = b
  · exact hab ▸ List.mem_append_right _ (List.mem_cons_self ..)
  · have hget : h.bufs.get a ≠ none := by simpa [takenHead, hab] using ha
    have hmem := hH a hget
    simp only [hb, List.mem_append, List.mem_cons] at hmem
    simp only [takenHead, List.mem_append, List.mem_cons]
    tauto

theorem held_obtained (hO : Obtained b h h') (hH : Held h out) : Held h' (b::out) := by
  induction hO with
  | taken hb hrb => exact held_taken hH hb
  | grown hnil hk hroom hlater ih => exact ih (held_grown hH)

theorem stepped_held {s t : PoolUse} {mallocs : List Bool} {call : Call}
    (h : Stepped s mallocs call t) (hH : Held s.heap s.out) : Held t.heap t.out := by
  have hH' : Held { s.heap with mallocs := mallocs } s.out := hH
  cases h with
  | alloc hO => exact held_obtained hO hH'
  | ralloc => exact held_grown hH'
  | @adjust b size rb res h' hb hrb hlo hhi hA =>
    cases hA with
    | kept => exact hH
    | refused => exact hH
    | moved =>
      intro a ha
      by_cases hab : a = b
      · subst hab
        exact List.mem_append_right _ hb
      · exact hH a (by simpa [hab] using ha)
  | @discard b rb hb hrb =>
    intro a ha
    have hab : a ≠ b := by
      rintro rfl
      simp [discarded] at ha
    have hmem := hH a (by simpa [discarded, hab] using ha)
    rcases List.mem_append.mp hmem with hmem | hmem
    · exact List.mem_append_left _ hmem
    · exact List.mem_append_right _ ((List.mem_erase_of_ne hab).mpr hmem)
  | @putBack b rb hb hrb =>
    intro a ha
    by_cases hab : a = b
    · exact hab ▸ List.mem_append_left _ (List.mem_cons_self ..)
    · rcases List.mem_append.mp (hH a ha) with hmem | hmem
      · exact List.mem_append_left _ (List.mem_cons_of_mem _ hmem)
      · exact List.mem_append_right _ ((List.mem_erase_of_ne hab).mpr hmem)

theorem reachable_held {t : PoolUse} (h : Reachable anyPool t) : Held t.heap t.out := by
  refine PoolRuns.reaches_along (fun t => Held t.heap t.out) (fun t ht => ?_)
    (fun s l t _ hH _ hs => stepped_held hs hH) h
  obtain ⟨max,size,mallocs,-,-,rfl⟩ := start_grown ht
  exact held_grown fun b hb => absurd rfl hb

end held

def drained (l : LinkedHeap) (free : List BufId) : LinkedHeap :=
  { l with bp.head := none, bufs := free.foldl Store.free l.bufs }

theorem uninit_run {turns : ℕ} {l : LinkedHeap} {free : List BufId}
    (hchain : Chain l.word (.first ()) free) (hnodup : free.Nodup)
    (hlive : ∀ b ∈ free, l.bufs.get b ≠ none) (hturns : free.length ≤ turns) :
    (xBufUninit turns).run l = .ok () (drained l free) := by
  induction free generalizing l turns with
  | nil =>
    obtain ⟨bp,bufs,next,mallocs⟩ := l
    obtain ⟨n,max,size,offset,head⟩ := bp
    cases (chain_nil.mp hchain : head = none)
    cases turns <;> rfl
  | cons b free ih =>
    obtain ⟨turns,rfl⟩ : ∃ k, turns = k+1 := ⟨turns-1, by simp at hturns; omega⟩
    obtain ⟨hb,hrest⟩ := chain_cons.mp hchain
    obtain ⟨hbfree,hnodup⟩ := List.nodup_cons.mp hnodup
    obtain ⟨r,hr⟩ := Option.ne_none_iff_exists'.mp (hlive b (List.mem_cons_self ..))
    have hhead : l.bp.head = some b := hb
    have hbuf : (LinkedPool.buf b).run l = .ok r l := by
      simp only [LinkedPool.buf, EStateM.run_bind, EStateM.run_get, hr]
      rfl
    have hfewer : free.length ≤ turns := by simpa using hturns
    have hlive' : ∀ a ∈ free, (l.bufs.free b).get a ≠ none := by
      intro a ha
      have hab : a ≠ b := fun h => hbfree (h ▸ ha)
      simpa [hab] using hlive a (List.mem_cons_of_mem _ ha)
    have hrun := ih (l := { l with bp.head := l.next b, bufs := l.bufs.free b })
      (hrest.moved rfl fun _ _ => rfl) hnodup hlive' hfewer
    unfold xBufUninit
    rw [EStateM.run_bind, EStateM.run_get]
    simp only [hhead]
    rw [EStateM.run_bind, hbuf]
    exact hrun

theorem freed_get (free : List BufId) (bufs : Store XtpBuf) (b : BufId) :
    (free.foldl Store.free bufs).get b = if b ∈ free then none else bufs.get b := by
  induction free generalizing bufs with
  | nil => rfl
  | cons a free ih =>
    rw [List.foldl_cons, ih, Store.free_get]
    by_cases hb : b ∈ free
    · simp [hb]
    · by_cases hab : b = a <;> simp [hb, hab]

theorem length_le_frontier {free : List BufId} {n : ℕ} (hnodup : free.Nodup)
    (hlt : ∀ b ∈ free, b < n) : free.length ≤ n := by
  have hsub : free ⊆ List.range n := fun b hb => List.mem_range.mpr (hlt b hb)
  simpa using (List.subperm_of_subset hnodup hsub).length_le

/-- After any run of calls, `x_buf_uninit` comes to its end. It frees what is
not outstanding, and leaves the counters as they are. -/
theorem uninit_leaves_outstanding (max size : ℤ) (mallocs : List Bool) (ls : List Request)
    {s : LinkedUse} (hs : (begun max size mallocs).bind (serve · ls) = some s) {turns : ℕ}
    (hturns : s.heap.bufs.next ≤ turns) :
    ∃ l, (xBufUninit turns).run s.heap = .ok () l ∧ l.bp = { s.heap.bp with head := none } ∧
      (∀ b, l.bufs.get b = if b ∈ s.out then s.heap.bufs.get b else none) ∧
      ∀ b ∈ s.out, s.heap.bufs.get b ≠ none := by
  have hpair := run_paired max size mallocs ls
  rw [hs] at hpair
  generalize (PoolRuns.begun max size mallocs).bind _ = o at hpair
  cases hpair with
  | @some _ t h =>
    obtain ⟨⟨⟨free,hheap,hchain⟩,hout,-⟩,ht⟩ := h
    have hS := reaches_sane ht
    have hH := reachable_held ht
    rw [hheap, ← hout] at hS hH
    have hlive : ∀ b ∈ free ++ s.out, s.heap.bufs.get b ≠ none := by
      intro b hb
      obtain ⟨rb,hrb,-⟩ := hS.live b hb
      exact Option.ne_none_iff_exists'.mpr ⟨rb, hrb⟩
    have hnodup := List.nodup_append.mp hS.nodup
    have henough : free.length ≤ turns :=
      (length_le_frontier hnodup.1 fun b hb => hS.lt (List.mem_append_left _ hb)).trans hturns
    have hrun :=
      uninit_run hchain hnodup.1 (fun b hb => hlive b (List.mem_append_left _ hb)) henough
    refine ⟨drained s.heap free, hrun, rfl, fun b => ?_, fun b hb =>
      hlive b (List.mem_append_right _ hb)⟩
    have hleft : (drained s.heap free).bufs.get b = if b ∈ free then none else s.heap.bufs.get b :=
      freed_get free s.heap.bufs b
    rw [hleft]
    by_cases hfree : b ∈ free
    · have hnot : b ∉ s.out := fun hmem => hnodup.2.2 b hfree b hmem rfl
      rw [if_pos hfree, if_neg hnot]
    · rw [if_neg hfree]
      by_cases hmem : b ∈ s.out
      · rw [if_pos hmem]
      · rw [if_neg hmem]
        by_contra hget
        exact (List.mem_append.mp (hH b hget)).elim hfree hmem

theorem uninit_leaves_one :
    ∃ s, (begun 1 nodeBufsiz [true]).bind
        (serve · [⟨.alloc, []⟩, ⟨.alloc, [true, true]⟩, ⟨.free 0, []⟩]) = some s ∧
      ∃ l, (xBufUninit 3).run s.heap = .ok () l ∧ l.bp = { s.heap.bp with head := none } ∧
        (∀ b, l.bufs.get b = if b ∈ s.out then s.heap.bufs.get b else none) ∧
        ∀ b ∈ s.out, s.heap.bufs.get b ≠ none := by
  refine ⟨_, rfl, uninit_leaves_outstanding 1 nodeBufsiz [true]
    [⟨.alloc, []⟩, ⟨.alloc, [true, true]⟩, ⟨.free 0, []⟩] rfl ?_⟩
  decide

end TcpFunnel.LinkedPoolRuns
