import TcpFunnel.BufferOwnership
import TcpFunnel.ClientLimit
import TcpFunnel.SlotCounting
import TcpFunnel.Attempts

/-!
# Winding down

Every connection has a timer, and a callback of the timer that finds nobody
waiting asks nothing of the kernel and returns. When the timers have gone off,
in any order, the listener holds nothing any more.
-/

set_option autoImplicit false

namespace TcpFunnel.WindDown
open TcpFunnel.BufferPool TcpFunnel.Connection TcpFunnel.SystemCalls TcpFunnel.Upstream
open TcpFunnel.Access TcpFunnel.EventLoop TcpFunnel.Reachability TcpFunnel.Actions
open TcpFunnel.Invariants TcpFunnel.RecordInvariant TcpFunnel.BufferInvariant
open TcpFunnel.StageInvariant TcpFunnel.TransferRuns TcpFunnel.PipeSimulation
open TcpFunnel.SchedulerSimulation TcpFunnel.ClosingSimulation TcpFunnel.UpstreamSimulation
open TcpFunnel.AccessSimulation TcpFunnel.StepSimulation TcpFunnel.Runs TcpFunnel.ClientLimit
open TcpFunnel.SlotCounting TcpFunnel.BufferOwnership TcpFunnel.Attempts

variable {w : World} {c : ConnId} {p : Pipe} {r : XtpConn} {fs : List Failure} {is : List Incident}

def shutConn (r : XtpConn) : XtpConn := if r.isOpen then { r with upcStatus := .close } else r

def shut (w : World) (c : ConnId) (r : XtpConn) : World :=
  if r.isOpen then closedUpstream w c r else w

theorem shutConn_fields (r : XtpConn) : (shutConn r).fd = r.fd ∧ (shutConn r).status = r.status ∧
    (shutConn r).isOpen = false := by
  unfold shutConn
  by_cases ho : r.isOpen = true
  · rw [if_pos ho]
    exact ⟨rfl, rfl, rfl⟩
  · rw [if_neg ho]
    exact ⟨rfl, rfl, by simpa using ho⟩

theorem shut_conns (hr : w.conns.get c = some r) :
    (shut w c r).conns = w.conns.set c (shutConn r) := by
  unfold shut shutConn
  split
  · exact closedUpstream_conns ..
  · exact (Store.set_self hr).symm

theorem shut_frame (w : World) (c : ConnId) (r : XtpConn) :
    (shut w c r).ln = { w.ln with
      workingNum := w.ln.workingNum - if r.isOpen then 1 else 0 } ∧
    (shut w c r).heap = w.heap ∧ (shut w c r).sys = w.sys ∧ (shut w c r).io = w.io ∧
    ∀ fd, (shut w c r).fds fd = if r.isOpen ∧ fd = r.upcFd then none else w.fds fd := by
  unfold shut
  by_cases ho : r.isOpen = true
  · simp [ho]
  · simp [ho]

section callbacks

variable (hI : Inv ⟨w, .closing c, false, fs, is⟩) (hr : w.conns.get c = some r)
include hI hr

theorem final_idle (hq : w.ln.cqWaiting = []) :
    (xUpstreamFinal c).run w = .ok () (shut w c r) := by
  unfold xUpstreamFinal shut
  by_cases ho : r.isOpen = true
  · have hup : r.upcStatus ≠ .none ∧ r.upcStatus ≠ .close := by
      rcases isOpen_iff.mp ho with h | h <;> simp [h]
    have hq' : (closedUpstream w c r).ln.cqWaiting = [] := by simpa using hq
    have hhandle : xUpstreamHandle.run (closedUpstream w c r) =
        .ok xnetOk (closedUpstream w c r) := by
      unfold xUpstreamHandle
      rw [bind_ok (get_run _)]
      exact handle_empty hq' _
    rw [final_run hr hup.1 hup.2, bind_ok hhandle, if_pos ho]
    rfl
  · have hclosed : r.isOpen = false := by simpa using ho
    rw [final_closed hr (closed_upcStatus (hI.records.phase c r hr) hclosed), if_neg ho]

theorem close_idle (hq : w.ln.cqWaiting = []) (hs : r.status = .timeout) :
    (xEventClose c).run w = .ok () (closedClient (shut w c r) c (shutConn r)) := by
  have hne : r.status ≠ .close := by simp [hs]
  have hfields := shutConn_fields r
  have hget : (shut w c r).conns.get c = some (shutConn r) := by simp [shut_conns hr]
  have hwaits : (shutConn r).status = .waiting → c ∈ (shut w c r).ln.cqWaiting := by
    intro h
    cases h.symm.trans (hfields.2.1.trans hs)
  rw [eventClose_run hr hne (hI.records.phase c r hr).upcf, bind_ok (final_idle hI hr hq)]
  rcases closeSide_run hget hwaits with h | ⟨w',-,-,-,d,hd,-⟩
  · rw [hfields.1] at h
    exact h
  · simp [shut_frame, hq] at hd

theorem freePipe_ends {turns : ℕ} (hturns : (r.pipe p).length < turns) :
    ∃ w', (freePipe c p turns).run w = .ok () w' ∧ Inv ⟨w', .closing c, false, fs, is⟩ ∧
      w'.conns = w.conns.set c (r.setPipe p []) ∧ w'.ln = w.ln ∧ w'.fds = w.fds ∧
      w'.sys = w.sys ∧ w'.io = w.io ∧ w'.heap.mallocs = w.heap.mallocs := by
  induction turns generalizing w r with
  | zero => omega
  | succ turns ih =>
    unfold freePipe
    rw [bind_ok (conn_run hr)]
    cases hpipe : r.pipe p with
    | nil =>
      have hsame : r.setPipe p [] = r := by
        rw [← hpipe]
        cases p <;> rfl
      exact ⟨w, rfl, hI, by rw [hsame, Store.set_self hr], rfl, rfl, rfl, rfl, rfl⟩
    | cons b bs =>
      have hb : (r.pipe p).head? = some b := by rw [hpipe]; rfl
      have hmem : b ∈ w.pipes c p := mem_pipes hr (List.mem_of_mem_head? hb)
      obtain ⟨rb,hrb,-⟩ := (hI.buffers.shape c p).each b hmem
      have hI' := act_inv (.unlink hr hb hrb (.inr rfl)) hI
      have hr' : (unlinked w c p r b).conns.get c =
          some (r.setPipe p (r.pipe p).tail) := by simp
      have hfewer : ((r.setPipe p (r.pipe p).tail).pipe p).length < turns := by
        rw [XtpConn.setPipe_pipe, if_pos rfl, hpipe]
        rw [hpipe] at hturns
        simpa using hturns
      obtain ⟨w',hrun,hinv,hconns,hrest⟩ := ih hI' hr' hfewer
      have hset : (r.setPipe p (r.pipe p).tail).setPipe p [] = r.setPipe p [] := by
        cases p <;> rfl
      refine ⟨w', (bind_ok (unlinkHead_run hI hr hb)).trans hrun, hinv, ?_, hrest⟩
      rw [hconns, hset, unlinked_conns, Store.set_set]

theorem release_ends :
    ∃ w', (do
      evStop c .eTimer
      freePipe c .pipe1 ((← conn c).pipe1.length+1)
      freePipe c .pipe2 ((← conn c).pipe2.length+1)
      zfree c : Callback Unit).run w = .ok () w' ∧ w'.conns = w.conns.free c ∧ w'.ln = w.ln ∧
      w'.fds = w.fds ∧ w'.sys = w.sys ∧ w'.io = w.io ∧ w'.heap.mallocs = w.heap.mallocs := by
  have hI0 := act_inv .stopTimer hI
  have hr0 : (w.setWatcher c .eTimer false).conns.get c = some r := hr
  obtain ⟨w1,hrun1,hI1,hconns1,hln1,hfds1,hsys1,hio1,hm1⟩ :=
    freePipe_ends hI0 hr0 (Nat.lt_succ_self (r.pipe .pipe1).length)
  have hr1 : w1.conns.get c = some (r.setPipe .pipe1 []) := by simp [hconns1]
  obtain ⟨w2,hrun2,-,hconns2,hln2,hfds2,hsys2,hio2,hm2⟩ :=
    freePipe_ends hI1 hr1 (Nat.lt_succ_self ((r.setPipe .pipe1 []).pipe .pipe2).length)
  have hr2 : w2.conns.get c = some ((r.setPipe .pipe1 []).setPipe .pipe2 []) := by simp [hconns2]
  have hfree : (zfree c).run w2 = .ok () (freed w2 c) := bind_ok (conn_run hr2)
  refine ⟨freed w2 c, ?_, ?_, hln2.trans hln1, hfds2.trans hfds1, hsys2.trans hsys1,
    hio2.trans hio1, hm2.trans hm1⟩
  · rw [bind_ok (evStop_run ..), bind_ok (conn_run hr0)]
    refine (bind_ok hrun1).trans ?_
    rw [bind_ok (conn_run hr1)]
    exact (bind_ok hrun2).trans hfree
  · rw [freed_conns, hconns2, hconns1, Store.set_set, Store.set_free]
    rfl

end callbacks

def timesOut (c : ConnId) : Turn where
  event := .fire c .eTimer

structure Expired (w : World) (c : ConnId) (r : XtpConn) (w' : World) : Prop where
  conns : w'.conns = w.conns.free c
  queue : w'.ln.cqWaiting = []
  slots : w'.ln.workingNum = w.ln.workingNum - if r.isOpen then 1 else 0
  descriptors : ∀ fd, w'.fds fd =
    if (r.status ≠ .close ∧ fd = r.fd) ∨ (r.isOpen ∧ fd = r.upcFd) then none else w.fds fd
  io : w'.io = w.io

theorem shut_acts (hr : w.conns.get c = some r) (hq : w.ln.cqWaiting = []) :
    Acts (some c) ⟨w, .closing c, false, fs, is⟩ ⟨shut w c r, .closing c, false, fs, is⟩ := by
  unfold shut
  by_cases ho : r.isOpen = true
  · rw [if_pos ho]
    have hclose : Act (some c) ⟨w, .closing c, false, fs, is⟩
        ⟨closedUpstream w c r, .closing c, true, fs, is⟩ :=
      .closeUpstream hr ho (.inr (.inr rfl))
    exact .tail (.single hclose) (.pass (.inl (by simpa using hq)))
  · rw [if_neg ho]

theorem timeout_open (hI : Inv ⟨w, .closing c, false, fs, is⟩) (hr : w.conns.get c = some r)
    (hq : w.ln.cqWaiting = []) (hs : r.status = .timeout) :
    ∃ w', (do
      xEventClose c
      evStop c .eTimer
      freePipe c .pipe1 ((← conn c).pipe1.length+1)
      freePipe c .pipe2 ((← conn c).pipe2.length+1)
      zfree c : Callback Unit).run w = .ok () w' ∧ w'.sys = w.sys ∧
      w'.heap.mallocs = w.heap.mallocs ∧ Expired w c r w' := by
  have hfields := shutConn_fields r
  have hframe := shut_frame w c r
  have hne : (shutConn r).status ≠ .close := by simp [hfields, hs]
  have hwait : (shutConn r).status ≠ .waiting := by simp [hfields, hs]
  have hget : (shut w c r).conns.get c = some (shutConn r) := by simp [shut_conns hr]
  have hclose : Act (some c) ⟨shut w c r, .closing c, false, fs, is⟩
      ⟨closedClient (shut w c r) c (shutConn r), .closing c, false, fs, is⟩ :=
    .closeClient hget hne hfields.2.2
  have hI' := path_inv (.tail (shut_acts hr hq) hclose) hI
  have hget' : (closedClient (shut w c r) c (shutConn r)).conns.get c =
      some { shutConn r with timerRepeat := connFreeTimeout, status := .close } := by simp
  obtain ⟨w',hrun,hconns,hln,hfds,hsys,hio,hmallocs⟩ := release_ends hI' hget'
  refine ⟨w', (bind_ok (close_idle hI hr hq hs)).trans hrun, ?_, ?_, ?_, ?_, ?_, ?_, ?_⟩
  · simp [hsys, hframe]
  · simp [hmallocs, hframe]
  · rw [hconns, closedClient_conns, Store.set_free, shut_conns hr, Store.set_free]
  · simp [hln, hwait, hframe, hq]
  · simp [hln, hframe]
  · intro fd
    rw [hfds, closedClient_fds, hfields.1, hframe.2.2.2.2]
    by_cases hfd : fd = r.fd
    · simp [hfd, hs]
    · simp [hfd]
  · simp [hio, hframe]

theorem timeout_closed (hI : Inv ⟨w, .closing c, false, fs, is⟩) (hr : w.conns.get c = some r)
    (hq : w.ln.cqWaiting = []) (hs : r.status = .close) :
    ∃ w', (do
      xEventClose c
      evStop c .eTimer
      freePipe c .pipe1 ((← conn c).pipe1.length+1)
      freePipe c .pipe2 ((← conn c).pipe2.length+1)
      zfree c : Callback Unit).run w = .ok () w' ∧ w'.sys = w.sys ∧
      w'.heap.mallocs = w.heap.mallocs ∧ Expired w c r w' := by
  have hclosed : r.isOpen = false := by
    by_contra ho
    rcases (hI.records.phase c r hr).ofOpen (by simpa using ho) with h | h
    · cases h.symm.trans hs
    · cases h.symm.trans hs
  have hclose : (xEventClose c).run w = .ok () w := by
    unfold xEventClose
    rw [bind_ok (conn_run hr)]
    simp only [hs]
    rfl
  obtain ⟨w',hrun,hconns,hln,hfds,hsys,hio,hmallocs⟩ := release_ends hI hr
  refine ⟨w', (bind_ok hclose).trans hrun, hsys, hmallocs, hconns, ?_, ?_, fun fd => ?_, hio⟩
  · rw [hln, hq]
  · simp [hln, hclosed]
  · simp [hfds, hs, hclosed]

theorem callback_ends (hr : w.conns.get c = some r) (hq : w.ln.cqWaiting = [])
    (hclosed : r.status = .close → Inv ⟨w, .closing c, false, fs, is⟩)
    (hmarked : r.status ≠ .close →
      ∃ is, Inv ⟨w.putConn c { r with status := .timeout }, .closing c, false, fs, is⟩) :
    ∃ w', (xTimeoutCb c).run w = .ok () w' ∧ w'.sys = w.sys ∧
      w'.heap.mallocs = w.heap.mallocs ∧ Expired w c r w' := by
  unfold xTimeoutCb
  rw [bind_ok (conn_run hr)]
  by_cases hs : r.status = .close
  · rw [if_neg (by simp [hs])]
    exact timeout_closed (hclosed hs) hr hq hs
  · have hget : (w.putConn c { r with status := .timeout }).conns.get c =
        some { r with status := .timeout } := by simp
    obtain ⟨is,hI⟩ := hmarked hs
    obtain ⟨w',hrun,hsys,hmallocs,hexp⟩ := timeout_open hI hget hq rfl
    simp only [ne_eq, hs, not_false_eq_true, if_true]
    rw [bind_ok (setConn_run hr _)]
    refine ⟨w', hrun, hsys, hmallocs, hexp.conns.trans (Store.set_free ..), hexp.queue, hexp.slots,
      fun fd => ?_, hexp.io⟩
    have hfd := hexp.descriptors fd
    simpa [hs, XtpConn.isOpen] using hfd

/-- When nobody waits, the callback of any timer returns without an answer of
the kernel. -/
theorem expires (h : Reachable proxy w) (hq : w.ln.cqWaiting = [])
    (hr : w.conns.get c = some r) : ∃ w', Step w (timesOut c) w' ∧ Expired w c r w' := by
  have hI := reaches_inv h
  have hactive : Active w (.fire c .eTimer) := by
    rcases (hI.records.phase c r hr).eTimer with hon | hbusy
    · exact hon
    · cases hbusy
  have hI0 := supply_inv (timesOut c) hI
  have hr0 : (supply w (timesOut c)).conns.get c = some r := hr
  have hdoom := @Act.doom _ [] [] _ _ hr0
  have hmark := fun hs : r.status ≠ .close => @Act.timeOut _ [] [] _ _ hr0 hs
  by_cases hrepeat : r.timerRepeat = 0
  · obtain ⟨w',hrun,hsys,hmallocs,hexp⟩ := callback_ends
      (w := (supply w (timesOut c)).setWatcher c .eTimer false) hr0 hq
      (fun _ => act_inv .stopTimer (act_inv hdoom hI0))
      (fun hs => ⟨_, act_inv .stopTimer (act_inv (hmark hs) hI0)⟩)
    refine ⟨w', ⟨hactive, ?_, hsys, hmallocs⟩, hexp.conns, hexp.queue, hexp.slots,
      hexp.descriptors, hexp.io⟩
    refine (bind_ok (expire_run hr0 ..)).trans ?_
    rw [if_pos hrepeat]
    exact hrun
  · obtain ⟨w',hrun,hsys,hmallocs,hexp⟩ := callback_ends hr0 hq (fun _ => act_inv hdoom hI0)
      (fun hs => ⟨_, act_inv (hmark hs) hI0⟩)
    refine ⟨w', ⟨hactive, ?_, hsys, hmallocs⟩, hexp.conns, hexp.queue, hexp.slots,
      hexp.descriptors, hexp.io⟩
    refine (bind_ok (expire_run hr0 ..)).trans ?_
    rw [if_neg hrepeat]
    exact hrun

def Held (w : World) (fd : ℤ) : Prop :=
  ∃ c r, w.conns.get c = some r ∧ ((r.status ≠ .close ∧ fd = r.fd) ∨ (r.isOpen ∧ fd = r.upcFd))

/-- The listener holds nothing any more. What it has moved is what it had moved
before. -/
structure AtRest (w w' : World) : Prop where
  records : ∀ c, w'.conns.get c = none
  watchers : ∀ c k, w'.loop c k = false
  queue : w'.ln.cqWaiting = [] ∧ w'.ln.cqWaitingNum = 0
  clients : w'.ln.cCount = 0
  slots : w'.ln.workingNum = w.ln.workingNum - openNum w
  buffers : ∀ b < w'.heap.bufs.next, b ∈ w'.heap.bp.head
  released : ∀ fd, Held w fd → w'.fds fd = none
  others : ∀ fd, ¬ Held w fd → w'.fds fd = w.fds fd
  io : w'.io = w.io

theorem empty_atRest (h : Reachable proxy w) (hq : w.ln.cqWaiting = [])
    (hnone : ∀ c, w.conns.get c = none) : AtRest w w := by
  have hI := reaches_inv h
  have hL : Limited (rest w) :=
    reaches_along Limited (fun _ h => start_limited h) (fun _ _ h => ⟨h.num, h.le⟩)
      (fun _ _ hI hL ha => act_limited ha hI hL) (fun _ _ _ _ _ _ _ hL => ⟨hL.num, hL.le⟩) h
  have hnames : ∀ f, w.conns.names f = ∅ := by
    intro f
    apply Finset.eq_empty_of_forall_notMem
    intro c hc
    obtain ⟨r,hr,-⟩ := (Store.mem_names hI.records.wellFormed).mp hc
    cases (hnone c).symm.trans hr
  refine ⟨hnone, fun c k => hI.records.absent c (hnone c) k, ⟨hq, ?_⟩, ?_, ?_, fun b hb => ?_, ?_,
    fun _ _ => rfl, rfl⟩
  · have hnum : w.ln.cqWaitingNum = w.ln.cqWaiting.length := hI.queue.num
    simp [hnum, hq]
  · have hnum : w.ln.cCount = clientNum w := hL.num
    simp [hnum, clientNum, hnames]
  · simp [openNum, hnames]
  · obtain ⟨x,hone,-⟩ := (reachable_owned h).once b hb
    have hmem : b ∈ held w x := List.count_pos_iff.mp (by omega)
    cases x with
    | pool => exact hmem
    | pipe c p => simp [held, World.pipes, hnone c] at hmem
  · rintro fd ⟨c,r,hr,-⟩
    cases (hnone c).symm.trans hr

theorem held_expired {w' : World} (hr : w.conns.get c = some r) (hexp : Expired w c r w') (fd : ℤ) :
    Held w fd ↔ ((r.status ≠ .close ∧ fd = r.fd) ∨ (r.isOpen ∧ fd = r.upcFd)) ∨ Held w' fd := by
  unfold Held
  constructor
  · rintro ⟨d,q,hq,hfd⟩
    by_cases hd : d = c
    · subst hd
      cases hr.symm.trans hq
      exact .inl hfd
    · exact .inr ⟨d, q, by simp [hexp.conns, hd, hq], hfd⟩
  · rintro (hfd | ⟨d,q,hq,hfd⟩)
    · exact ⟨c, r, hr, hfd⟩
    · rw [hexp.conns, Store.free_some] at hq
      exact ⟨d, q, hq.2, hfd⟩

theorem open_expired {w' : World} (hwf : w.conns.WellFormed) (hr : w.conns.get c = some r)
    (hexp : Expired w c r w') : openNum w = openNum w' + if r.isOpen then 1 else 0 := by
  unfold openNum
  rw [hexp.conns]
  cases ho : r.isOpen with
  | false => rw [Store.names_free hwf hr ho]; rfl
  | true => exact (Store.card_names_free hwf hr ho).symm

theorem expired_atRest {w' w'' : World} (hwf : w.conns.WellFormed) (hr : w.conns.get c = some r)
    (hexp : Expired w c r w') (hrest : AtRest w' w'') : AtRest w w'' := by
  refine ⟨hrest.records, hrest.watchers, hrest.queue, hrest.clients, ?_, hrest.buffers, ?_, ?_,
    hrest.io.trans hexp.io⟩
  · have hslots := hrest.slots
    have hbefore := hexp.slots
    have hnum := open_expired hwf hr hexp
    rw [hslots, hbefore, hnum]
    split <;> omega
  · intro fd hfd
    by_cases hlater : Held w' fd
    · exact hrest.released fd hlater
    · have hnow := ((held_expired hr hexp fd).mp hfd).resolve_right hlater
      rw [hrest.others fd hlater, hexp.descriptors fd, if_pos hnow]
  · intro fd hfd
    have hneither := mt (held_expired hr hexp fd).mpr hfd
    rw [hrest.others fd (fun hlater => hneither (.inr hlater)), hexp.descriptors fd,
      if_neg (fun hnow => hneither (.inl hnow))]

/-- Whatever has happened, once nobody waits the timers of the connections, in
any order, bring the listener to rest. -/
theorem winds_down (h : Reachable proxy w) (hq : w.ln.cqWaiting = []) {cs : List ConnId}
    (hcs : cs.Nodup) (hall : ∀ c, c ∈ cs ↔ w.conns.get c ≠ none) :
    ∃ w', play (fun _ _ => true) w (cs.map timesOut) = some w' ∧ Reachable proxy w' ∧
      AtRest w w' := by
  induction cs generalizing w with
  | nil =>
    have hnone : ∀ c, w.conns.get c = none := by
      intro c
      by_contra hsome
      exact absurd ((hall c).mpr hsome) List.not_mem_nil
    exact ⟨w, rfl, h, empty_atRest h hq hnone⟩
  | cons c cs ih =>
    have hsome := (hall c).mp List.mem_cons_self
    obtain ⟨r,hr⟩ := Option.ne_none_iff_exists'.mp hsome
    obtain ⟨w1,hstep,hexp⟩ := expires h hq hr
    have hlater : ∀ d, d ∈ cs ↔ w1.conns.get d ≠ none := by
      intro d
      rw [hexp.conns, Store.free_get]
      by_cases hd : d = c
      · simp [hd, (List.nodup_cons.mp hcs).1]
      · rw [if_neg hd, ← hall d, List.mem_cons, or_iff_right hd]
    obtain ⟨w',hplay,hreach,hrest⟩ :=
      ih (.step h trivial hstep) hexp.queue (List.nodup_cons.mp hcs).2 hlater
    refine ⟨w', ?_, hreach, expired_atRest (reaches_inv h).records.wellFormed hr hexp hrest⟩
    rw [← hplay]
    exact play_cons hstep _

theorem winds_down_two : ∃ w w', w.conns.next = 2 ∧ w.fds 5 ≠ none ∧ w.fds 20 ≠ none ∧
    play (fun _ _ => true) w [timesOut 1, timesOut 0] = some w' ∧ Reachable proxy w' ∧
    AtRest w w' := by
  have hplay : (play (fun _ _ => true) (listener (singlePeer 1) (initialPool true))
      (oneConnected ++ [comes 6])).any (fun w => decide (w.conns.next = 2 ∧
        w.ln.cqWaiting = [] ∧ w.conns.get 0 ≠ none ∧ w.conns.get 1 ≠ none ∧ w.fds 5 ≠ none ∧
        w.fds 20 ≠ none)) = true := by
    decide +kernel
  obtain ⟨w,hr,hw⟩ := play_reaches _ (.start (singlePeer_start 1)) hplay
  obtain ⟨hnext,hq,h0,h1,h5,h20⟩ := of_decide_eq_true hw
  have hreach := hr.reachable
  have hwf := (reaches_inv hreach).records.wellFormed
  have hall : ∀ c, c ∈ [1, 0] ↔ w.conns.get c ≠ none := by
    intro c
    constructor
    · intro hc
      simp only [List.mem_cons, List.not_mem_nil, or_false] at hc
      rcases hc with rfl | rfl
      · exact h1
      · exact h0
    · intro hc
      have hlt : c < 2 := by
        by_contra hge
        exact hc (hwf c (le_of_eq_of_le hnext (Nat.le_of_not_lt hge)))
      simp only [List.mem_cons, List.not_mem_nil, or_false]
      omega
  obtain ⟨w',hplay,hreach',hrest⟩ := winds_down hreach hq (by decide) hall
  exact ⟨w, w', hnext, h5, h20, hplay, hreach', hrest⟩

end TcpFunnel.WindDown
