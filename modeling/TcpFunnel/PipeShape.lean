import TcpFunnel.Runs
import TcpFunnel.PoolRuns

/-!
# The shape of the pipes

A pipe is filled at its tail and drained at its head, so that every buffer in
front of the tail is full and every one behind the head is unread. A receiving
callback begins at a tail with room, and stays within the window.
-/

set_option autoImplicit false

namespace TcpFunnel.PipeShape
open TcpFunnel.BufferPool TcpFunnel.Connection TcpFunnel.Upstream TcpFunnel.EventLoop
open TcpFunnel.Reachability TcpFunnel.Actions TcpFunnel.Invariants TcpFunnel.BufferInvariant
open TcpFunnel.StageInvariant TcpFunnel.TransferRuns TcpFunnel.PipeSimulation
open TcpFunnel.StepSimulation TcpFunnel.Runs TcpFunnel.PoolRuns

def windowEnd (h : Heap) : ℕ := (h.bp.size-1).toNat

structure Shaped (h : Heap) (bs : List BufId) : Prop where
  nodup : bs.Nodup
  ordered : ∀ b ∈ bs, ∃ rb, h.bufs.get b = some rb ∧ rb.start ≤ rb.pos ∧ rb.pos ≤ rb.last ∧
    rb.last ≤ rb.endPos ∧ rb.endPos = windowEnd h
  full : ∀ b ∈ bs.dropLast, ∀ rb ∈ h.bufs.get b, rb.last = rb.endPos
  room : ∀ b ∈ bs.getLast?, ∀ rb ∈ h.bufs.get b, rb.last < rb.endPos
  unread : ∀ b ∈ bs.tail, ∀ rb ∈ h.bufs.get b, rb.pos = rb.start

def Roomy (h : Heap) (b : BufId) : Prop := ∃ rb, h.bufs.get b = some rb ∧ rb.last < rb.endPos

/-- No byte at or behind the end of the windows has been written, neither in a
block that was there nor in one that has been obtained since. -/
structure EndKept (h h' : Heap) : Prop where
  old : ∀ b rb, h.bufs.get b = some rb →
    ∃ rb', h'.bufs.get b = some rb' ∧ ∀ i, windowEnd h ≤ i → rb'.data i = rb.data i
  fresh : ∀ b rb, h'.bufs.get b = some rb → h.bufs.get b = none →
    ∀ i, windowEnd h ≤ i → rb.data i = 0

variable {o : Option ConnId} {s u : Stage} {w w' : World} {t : Turn} {h h' : Heap}
variable {c : ConnId} {p : Pipe} {r : XtpConn} {b : BufId} {rb : XtpBuf} {bs : List BufId}

theorem buffers_shaped (hB : Buffers s) (hbusy : s.busy = .idle) (hr : s.w.conns.get c = some r) :
    Shaped s.w.heap (r.pipe p) := by
  have hnodup := hB.nodup c p
  have hshape := hB.shape c p
  rw [pipes_of hr] at hnodup hshape
  refine ⟨hnodup, fun b hb => ?_, hshape.front, fun b hb rb hrb => ?_, hshape.unread⟩
  · obtain ⟨rb,hrb,hp⟩ := hshape.each b hb
    exact ⟨rb, hrb, hp.startPos, hp.posLast, hp.lastEnd, hp.endAt⟩
  · have htail := hshape.tail b hb rb hrb
    simpa [Busy.full, hbusy] using htail

/-- A head that has been read up without being full is the only buffer. -/
theorem Shaped.head_last (hS : Shaped h bs) (hb : bs.head? = some b)
    (hrb : h.bufs.get b = some rb) (hne : rb.last ≠ rb.endPos) : bs = [b] := by
  cases bs with
  | nil => cases hb
  | cons a rest =>
    cases hb
    cases rest with
    | nil => rfl
    | cons a' rest => exact absurd (hS.full b (by simp) rb hrb) hne

theorem obtained_roomy (hO : Obtained b h h') (hroom : h.bp.offset < windowEnd h) :
    Roomy h' b := by
  induction hO with
  | @taken h rest rb hb hrb => exact ⟨rewound rb h.bp, by simp [takenHead], hroom⟩
  | @grown h h' hnil hk hheader hlater ih =>
    obtain ⟨hsize,hoff,-⟩ := @grown_frame poolBlock
      { bumped h with mallocs := h.mallocs.drop (amount 0 h) } (gained 0 h)
    apply ih
    unfold windowEnd reallocated
    rw [hsize, hoff]
    exact hroom

theorem setConn_heap {f : XtpConn → XtpConn} (hrun : (setConn c f).run w = .ok () w') :
    w'.heap = w.heap := by
  unfold setConn conn at hrun
  simp only [EStateM.run_bind, EStateM.run_get] at hrun
  cases hr : w.conns.get c with
  | none =>
    rw [hr] at hrun
    cases hrun
  | some r =>
    rw [hr] at hrun
    cases hrun
    rfl

theorem linkBuf_roomy (hroom : w.heap.bp.offset < windowEnd w.heap)
    (hrun : (linkBuf c p).run w = .ok b w') : Roomy w'.heap b := by
  unfold linkBuf at hrun
  rw [EStateM.run_bind, onHeap_run] at hrun
  cases halloc : xBufAlloc.run w.heap with
  | error e h =>
    rw [halloc] at hrun
    cases hrun
  | ok a h =>
    rw [halloc] at hrun
    have hgot := obtained_roomy (alloc_obtained _ halloc) hroom
    simp only [EStateM.run_bind] at hrun
    cases hset : (setConn c fun r => r.setPipe p (r.pipe p ++ [a])).run (w.setHeap h) with
    | error e w1 =>
      rw [hset] at hrun
      cases hrun
    | ok _ w1 =>
      rw [hset] at hrun
      cases hrun
      rw [setConn_heap hset]
      exact hgot

/-- A receiving callback begins with a buffer that has room. -/
theorem tailBuf_roomy (hS : Shaped w.heap (r.pipe p)) (hr : w.conns.get c = some r)
    (hroom : w.heap.bp.offset < windowEnd w.heap) (hrun : (tailBuf c p).run w = .ok b w') :
    Roomy w'.heap b := by
  unfold tailBuf at hrun
  rw [bind_ok (conn_run hr)] at hrun
  cases htail : (r.pipe p).getLast? with
  | none =>
    simp only [htail] at hrun
    exact linkBuf_roomy hroom hrun
  | some a =>
    simp only [htail] at hrun
    cases hrun
    obtain ⟨rb,hrb,-⟩ := hS.ordered b (List.mem_of_mem_getLast? htail)
    exact ⟨rb, hrb, hS.room b htail rb hrb⟩

theorem endKept_same (hbufs : h'.bufs = h.bufs) : EndKept h h' where
  old := fun b rb hrb => ⟨rb, by rw [hbufs, hrb], fun _ _ => rfl⟩
  fresh := by
    intro b rb hrb hnone
    rw [hbufs, hnone] at hrb
    cases hrb

theorem endKept_set {rb' : XtpBuf} (hrb : h.bufs.get b = some rb)
    (hbufs : h'.bufs = h.bufs.set b rb') (hdata : ∀ i, windowEnd h ≤ i → rb'.data i = rb.data i) :
    EndKept h h' where
  old := by
    intro a ra hra
    rw [hbufs, Store.set_get]
    by_cases hab : a = b
    · subst hab
      cases hrb.symm.trans hra
      exact ⟨rb', if_pos rfl, hdata⟩
    · exact ⟨ra, by rw [if_neg hab, hra], fun _ _ => rfl⟩
  fresh := by
    intro a ra hra hnone
    rw [hbufs, Store.set_some] at hra
    rcases hra with ⟨rfl,-⟩ | ⟨-,hra⟩
    · cases hrb.symm.trans hnone
    · cases hra.symm.trans hnone

theorem endKept_push {make : XtpBufPool → XtpBuf} (hmake : ∀ bp i, (make bp).data i = 0)
    (hnext : h.bufs.get h.bufs.next = none) : EndKept h (pushBlock make h) where
  old := by
    intro b rb hrb
    have hne : b ≠ h.bufs.next := by
      rintro rfl
      cases hrb.symm.trans hnext
    exact ⟨rb, (if_neg hne).trans hrb, fun _ _ => rfl⟩
  fresh := by
    intro b rb hrb hnone i _
    rcases (Store.push_some ..).mp hrb with ⟨-,rfl⟩ | ⟨-,hrb⟩
    · exact hmake h.bp i
    · cases hrb.symm.trans hnone

theorem EndKept.trans {h'' : Heap} (h1 : EndKept h h') (h2 : EndKept h' h'')
    (hend : windowEnd h' = windowEnd h) : EndKept h h'' where
  old := by
    intro b rb hrb
    obtain ⟨rb1,hrb1,hkept1⟩ := h1.old b rb hrb
    obtain ⟨rb2,hrb2,hkept2⟩ := h2.old b rb1 hrb1
    exact ⟨rb2, hrb2, fun i hi => (hkept2 i (hend ▸ hi)).trans (hkept1 i hi)⟩
  fresh := by
    intro b rb2 hrb2 hnone i hi
    cases hrb1 : h'.bufs.get b with
    | none => exact h2.fresh b rb2 hrb2 hrb1 i (hend ▸ hi)
    | some rb1 =>
      obtain ⟨rb,hrb,hkept⟩ := h2.old b rb1 hrb1
      cases hrb2.symm.trans hrb
      exact (hkept i (hend ▸ hi)).trans (h1.fresh b rb1 hrb1 hnone i hi)

theorem endKept_write {n : ℕ} {bytes : List UInt8} (hB : Buffers s)
    (hr : s.w.conns.get c = some r) (hb : (r.pipe p).getLast? = some b)
    (hrb : s.w.heap.bufs.get b = some rb) (hroom : rb.last+bytes.length ≤ rb.endPos) :
    EndKept s.w.heap
      (setBlock s.w.heap b { rb with data := Memory.write rb.data rb.last bytes, last := n }) := by
  have hshape := hB.shape c p
  rw [pipes_of hr] at hshape
  obtain ⟨rb',hrb',hp⟩ := hshape.each b (List.mem_of_mem_getLast? hb)
  cases hrb.symm.trans hrb'
  apply endKept_set hrb rfl
  intro i hi
  have hend : rb.endPos = windowEnd s.w.heap := hp.endAt
  exact Memory.write_after _ _ _ _ (by omega)

theorem act_endKept (hI : Inv s) (ha : Act o s u) : EndKept s.w.heap u.w.heap := by
  cases ha with
  | @addBlock _ w b d fs is =>
    exact endKept_push (fun _ _ => rfl) (hI.buffers.wellFormed _ (Nat.le_refl _))
  | link hr hb hrb => exact endKept_set hrb rfl fun _ _ => rfl
  | fill chunks hr hb hrb hpos hroom => exact endKept_write hI.buffers hr hb hrb hroom
  | lose chunks hr hb hrb hroom => exact endKept_write hI.buffers hr hb hrb hroom
  | drain ks hr hp hb hrb => exact endKept_set hrb rfl fun _ _ => rfl
  | requested => split <;> exact endKept_same rfl
  | noSocket | promote | refuse | connect | closeUpstream | closeClient | welcome | turnAway =>
    exact endKept_same (by simp)
  | _ => exact endKept_same rfl

theorem path_endKept (hI : Inv s) (h : Acts o s u) : EndKept s.w.heap u.w.heap := by
  induction h with
  | refl => exact endKept_same rfl
  | tail hp ha ih =>
    apply ih.trans (act_endKept (path_inv hp hI) ha)
    unfold windowEnd
    rw [(path_geometry hp).2]

/-- The pipes keep their shape, so that a receiving callback finds room, writes
nothing behind it, and a head that is read up before its end is the whole pipe. -/
theorem pipes_shaped (h : Reachable proxy w) (hr : w.conns.get c = some r) (p : Pipe) :
    Shaped w.heap (r.pipe p) ∧
    (∀ t b w', (tailBuf c p).run (supply w t) = .ok b w' → Roomy w'.heap b) ∧
    (∀ w1 b w', w1.heap.bp.size = w.heap.bp.size → w1.heap.bp.offset = w.heap.bp.offset →
      (linkBuf c p).run w1 = .ok b w' → Roomy w'.heap b) ∧
    (∀ t w', Step w t w' → EndKept w.heap w'.heap) ∧
    (∀ b rb, (r.pipe p).head? = some b → w.heap.bufs.get b = some rb → rb.pos = rb.last →
      rb.last ≠ rb.endPos → unsent w c p = []) := by
  have hI := reaches_inv h
  have hS : Shaped w.heap (r.pipe p) := buffers_shaped hI.buffers rfl hr
  have hroom : w.heap.bp.offset < windowEnd w.heap := hI.buffers.room
  refine ⟨hS, fun t b w' hrun => ?_, fun w1 b w' hsize hoff hrun => ?_, fun t w' hstep => ?_,
    fun b rb hb hrb hread hne => ?_⟩
  · have hS' : Shaped (supply w t).heap (r.pipe p) :=
      ⟨hS.nodup, hS.ordered, hS.full, hS.room, hS.unread⟩
    exact tailBuf_roomy hS' hr hroom hrun
  · apply linkBuf_roomy _ hrun
    unfold windowEnd at hroom ⊢
    rwa [hsize, hoff]
  · obtain ⟨u,hpath,rfl,-⟩ := returned_path hI hstep.1 hstep.2.1
    have hkept := path_endKept (supply_inv t hI) hpath
    exact ⟨hkept.old, hkept.fresh⟩
  · have hone := hS.head_last hb hrb hne
    simp [unsent, pipes_of hr, hone, window, hrb, hread]

theorem pipes_shaped_oneWaits :
    ∃ (w : World) (r : XtpConn), w.conns.get 0 = some r ∧ r.pipe1 = [0] ∧
    Shaped w.heap (r.pipe .pipe1) := by
  have hplay : (play (fun _ _ => true) (listener (singlePeer 1) (initialPool true))
      oneWaits).any (fun w => decide ((w.conns.get 0).map (·.pipe1) = some [0])) = true := by
    decide +kernel
  obtain ⟨w,hreach,hw⟩ := play_reaches _ (.start (singlePeer_start 1)) hplay
  obtain ⟨r,hr,hpipe⟩ := Option.map_eq_some_iff.mp (of_decide_eq_true hw)
  exact ⟨w, r, hr, hpipe, (pipes_shaped hreach.reachable hr .pipe1).1⟩

end TcpFunnel.PipeShape
