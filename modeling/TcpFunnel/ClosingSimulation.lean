import TcpFunnel.SchedulerSimulation

/-!
# Closing an upstream and a client

`x_upstream_final` on an open upstream closes it and lets the scheduler run.
`x_event_close` calls it, then closes the client's side and takes a client
that still waits out of the queue.
-/

set_option autoImplicit false

namespace TcpFunnel.ClosingSimulation
open TcpFunnel.BufferPool TcpFunnel.Connection TcpFunnel.SystemCalls TcpFunnel.TransferLoops
open TcpFunnel.Upstream TcpFunnel.Access TcpFunnel.Simulation TcpFunnel.Actions
open TcpFunnel.Invariants TcpFunnel.QueueInvariant TcpFunnel.RecordInvariant
open TcpFunnel.StageInvariant TcpFunnel.TransferRuns TcpFunnel.PipeSimulation
open TcpFunnel.SchedulerSimulation

variable {w : World} {busy : Busy} {fs : List Failure} {is : List Incident} {c : ConnId}
variable {r : XtpConn} {t : Stage}

structure FinalDone (s : Stage) (c : ConnId) (r : XtpConn) (t : Stage) : Prop where
  busy : t.busy = afterClosing s.busy
  due : t.due = false
  incidents : t.incidents = s.incidents
  io : t.w.io = s.w.io
  conn : t.w.conns.get c = some { r with upcStatus := .close }
  timer : t.w.loop c .eTimer = s.w.loop c .eTimer
  queue : ∀ d ∈ t.w.ln.cqWaiting, d ∈ s.w.ln.cqWaiting

structure Returned (is : List Incident) (t : Stage) : Prop where
  busy : t.busy = .idle ∨ t.busy = .over
  due : t.due = false
  incidents : t.incidents = is

theorem FinalDone.returned (h : FinalDone ⟨w, busy, false, fs, is⟩ c r t)
    (hbusy : afterClosing busy = .idle) : Returned is t :=
  ⟨Or.inl (h.busy.trans hbusy), h.due, h.incidents⟩

theorem afterClosing_over (busy : Busy) : afterClosing busy ≠ .over := by
  cases busy <;> simp [afterClosing]

theorem closedUpstream_put (w : World) (c : ConnId) (r : XtpConn) (st : ConnPhase) :
    closedUpstream (w.putConn c { r with upcStatus := st }) c { r with upcStatus := st } =
      closedUpstream w c r := by
  simp only [closedUpstream]
  split <;> simp [World.putConn, World.setWatcher, World.closeFd, World.setLn, World.note]

/-- `x_upstream_final` on an open upstream, whose status may just have been
overwritten. -/
theorem sim_final_marked (st : ConnPhase) (hI : Inv ⟨w, busy, false, fs, is⟩)
    (hr : w.conns.get c = some r) (ho : r.isOpen)
    (hbusy : busy = .idle ∨ (∃ p, busy = .losing c p) ∨ busy = .closing c) (hn : st ≠ .none)
    (hc : st ≠ .close) :
    SimulatedAt (Act (some c)) Stage.w Cut ⟨w, busy, false, fs, is⟩
      (w.putConn c { r with upcStatus := st }) (xUpstreamFinal c)
      fun _ t => FinalDone ⟨w, busy, false, fs, is⟩ c r t := by
  have hget : (w.putConn c { r with upcStatus := st }).conns.get c =
      some { r with upcStatus := st } := by simp
  have hrun := final_run hget hn hc xUpstreamHandle
  rw [closedUpstream_put] at hrun
  have hclose : Acts (some c) ⟨w, busy, false, fs, is⟩
      ⟨closedUpstream w c r, afterClosing busy, true, fs, is⟩ :=
    .single (.closeUpstream hr ho hbusy)
  have hoff : c ∉ w.ln.cqWaiting := open_off_queue hI.queue hr ho
  refine .congr hrun (.moved hclose rfl ?_)
  refine Simulated.bind (sim_handle (afterClosing_over busy) (path_inv hclose hI)) fun _ u _ hu =>
    Simulated.pure ?_
  obtain ⟨hconns,hloop⟩ := hu.others c (by simpa using hoff)
  refine ⟨hu.busy, hu.due, hu.incidents, hu.io.trans (by simp), ?_, ?_, fun d hd => ?_⟩
  · rw [hconns]
    simp
  · rw [hloop]
    simp
  · simpa using hu.queue d hd

theorem putConn_self (hr : w.conns.get c = some r) : w.putConn c r = w := by
  unfold World.putConn
  rw [Store.set_self hr]

theorem sim_final (hI : Inv ⟨w, busy, false, fs, is⟩) (hr : w.conns.get c = some r)
    (ho : r.isOpen) (hbusy : busy = .idle ∨ (∃ p, busy = .losing c p) ∨ busy = .closing c) :
    Sim (some c) ⟨w, busy, false, fs, is⟩ (xUpstreamFinal c)
      fun _ t => FinalDone ⟨w, busy, false, fs, is⟩ c r t := by
  have hn : r.upcStatus ≠ .none := by
    intro h
    simp [XtpConn.isOpen, h] at ho
  have hc : r.upcStatus ≠ .close := by
    intro h
    simp [XtpConn.isOpen, h] at ho
  have hmarked := sim_final_marked r.upcStatus hI hr ho hbusy hn hc
  rw [putConn_self hr] at hmarked
  exact hmarked

/-- What `x_event_close` does once the upstream is closed. -/
def closeSide (c : ConnId) (fd : ℤ) : Callback Unit := do
  evStop c .eRecv
  evStop c .eSend
  close fd
  if (← conn c).status = .waiting then
    tailqRemove c
    modify (·.setLn fun ln => { ln with cqWaitingNum := ln.cqWaitingNum-1 })
  setConn c fun r => { r with timerRepeat := connFreeTimeout }
  evTimerAgain c .eTimer connFreeTimeout
  setConn c fun r => { r with status := .close }
  modify fun w => (w.setLn fun ln => { ln with cCount := ln.cCount-1 }).note (.closed c)

theorem evTimerAgain_run (w : World) (c : ConnId) (k : Watcher) (period : ℤ) :
    (evTimerAgain c k period).run w = .ok () (w.setWatcher c k (period ≠ 0)) := rfl

theorem closeRest_run (hr : w.conns.get c = some r) :
    (do
      setConn c fun r => { r with timerRepeat := connFreeTimeout }
      evTimerAgain c .eTimer connFreeTimeout
      setConn c fun r => { r with status := .close }
      modify fun w => (w.setLn fun ln => { ln with cCount := ln.cCount-1 }).note (.closed c) :
        Callback Unit).run w =
      .ok () (((w.setWatcher c .eTimer true).putConn c
        { r with timerRepeat := connFreeTimeout, status := .close }).setLn
        (fun ln => { ln with cCount := ln.cCount-1 }) |>.note (.closed c)) := by
  have hget : ((w.putConn c { r with timerRepeat := connFreeTimeout }).setWatcher c .eTimer
      (connFreeTimeout ≠ 0)).conns.get c = some { r with timerRepeat := connFreeTimeout } := by simp
  rw [bind_ok (setConn_run hr _), bind_ok (evTimerAgain_run ..), bind_ok (setConn_run hget _),
    modify_run]
  simp [World.putConn, World.setWatcher, connFreeTimeout]

theorem closeSide_run (hr : w.conns.get c = some r)
    (hq : r.status = .waiting → c ∈ w.ln.cqWaiting) :
    (closeSide c r.fd).run w = .ok () (closedClient w c r) ∨
    ∃ w', (closeSide c r.fd).run w = .error .useAfterFree w' ∧ w'.io = w.io ∧ w'.log = w.log ∧
      ∃ d ∈ w.ln.cqWaiting, w.conns.get d = none := by
  set w1 := ((w.setWatcher c .eRecv false).setWatcher c .eSend false).closeFd r.fd with hw1
  have hget : w1.conns.get c = some r := hr
  unfold closeSide
  rw [bind_ok (evStop_run ..), bind_ok (evStop_run ..), bind_ok (close_run ..), ← hw1,
    bind_ok (conn_run hget)]
  by_cases hs : r.status = .waiting
  · rw [if_pos hs]
    have hmem : c ∈ w1.ln.cqWaiting := hq hs
    rcases tailqRemove_run hmem hget with ⟨h,-⟩ | ⟨h,d,hd,-,hn⟩
    · left
      have hget' : ((w1.setLn fun ln => { ln with cqWaiting := w1.ln.cqWaiting.erase c }).setLn
          fun ln => { ln with cqWaitingNum := ln.cqWaitingNum-1 }).conns.get c = some r := hget
      refine (bind_ok h).trans ((bind_ok (modify_run ..)).trans ((closeRest_run hget').trans ?_))
      simp only [closedClient, if_pos hs, hw1]
      rfl
    · exact Or.inr ⟨w1, bind_error h, rfl, rfl, d, mem_neighbours hd, hn⟩
  · rw [if_neg hs]
    left
    refine (closeRest_run hget).trans ?_
    simp only [closedClient, if_neg hs, hw1]

theorem eventClose_run (hr : w.conns.get c = some r) (hs : r.status ≠ .close)
    (hup : r.upcStatus ≠ .none → ∃ i < w.ln.srvcf.upstream.length, r.upcf = some i) :
    (xEventClose c).run w = (xUpstreamFinal c >>= fun _ => closeSide c r.fd).run w := by
  unfold xEventClose
  rw [bind_ok (conn_run hr)]
  simp only [if_pos hs]
  by_cases hn : r.upcStatus = .none
  · simp only [hn]
    rfl
  · obtain ⟨i,hi,hupcf⟩ := hup hn
    obtain ⟨p,hp⟩ := peer_run hi
    rw [if_pos hn, hupcf]
    exact bind_ok hp

structure CloseDone (s : Stage) (c : ConnId) (r : XtpConn) (t : Stage) : Prop where
  busy : t.busy = .closing c
  due : t.due = false
  incidents : t.incidents = s.incidents
  io : t.w.io = s.w.io
  conn : ∃ r', t.w.conns.get c = some r' ∧ r'.status = .close ∧ r'.isOpen = false
  timer : r.status ≠ .close → t.w.loop c .eTimer = true
  queue : Regular s.w c → c ∉ t.w.ln.cqWaiting

theorem sim_closeSide (hI : Inv ⟨w, .closing c, false, fs, is⟩) (hr : w.conns.get c = some r)
    (hs : r.status ≠ .close) (ho : r.isOpen = false) :
    Sim (some c) ⟨w, .closing c, false, fs, is⟩ (closeSide c r.fd)
      fun _ t => CloseDone ⟨w, .closing c, false, fs, is⟩ c r t := by
  rcases closeSide_run hr (hI.queue.all c r hr) with h | ⟨w',h,hio,hlog,d,hd,hn⟩
  · have hclose : Acts (some c) ⟨w, .closing c, false, fs, is⟩
        ⟨closedClient w c r, .closing c, false, fs, is⟩ := .single (.closeClient hr hs ho)
    refine Simulated.ok (u := ⟨closedClient w c r, .closing c, false, fs, is⟩) h hclose ?_
    have hget : (closedClient w c r).conns.get c =
        some { r with timerRepeat := connFreeTimeout, status := .close } := by simp
    refine ⟨rfl, rfl, rfl, by simp, ⟨_, hget, rfl, ho⟩, by simp, ?_⟩
    intro hreg hc
    simp only [closedClient_ln] at hc
    by_cases hw : r.status = .waiting
    · rw [if_pos hw] at hc
      exact hI.queue.nodup.not_mem_erase hc
    · rw [if_neg hw] at hc
      exact hw ((hreg r hr).2 hc)
  · exact Simulated.error h .refl ⟨hio, hlog, Or.inr (Or.inl ⟨rfl, by simp, d, hd, hn⟩)⟩

theorem sim_eventClose (hI : Inv ⟨w, .closing c, false, fs, is⟩) (hr : w.conns.get c = some r) :
    Sim (some c) ⟨w, .closing c, false, fs, is⟩ (xEventClose c)
      fun _ t => CloseDone ⟨w, .closing c, false, fs, is⟩ c r t := by
  have hphase := hI.records.phase c r hr
  by_cases hs : r.status = .close
  · have hrun : (xEventClose c).run w = .ok () w := by
      unfold xEventClose
      rw [bind_ok (conn_run hr)]
      simp only [hs]
      rfl
    have hclosed : r.isOpen = false := by
      by_contra ho
      rcases hphase.ofOpen (by simpa using ho) with h | h
      · rw [hs] at h; cases h
      · rw [hs] at h; cases h
    refine Simulated.ok (u := ⟨w, .closing c, false, fs, is⟩) hrun .refl ?_
    refine ⟨rfl, rfl, rfl, rfl, ⟨r, hr, hs, hclosed⟩, fun h => absurd hs h, ?_⟩
    intro hreg hc
    have hw := (hreg r hr).2 hc
    rw [hs] at hw
    cases hw
  · refine .congr (eventClose_run hr hs hphase.upcf) ?_
    cases ho : r.isOpen with
    | false =>
      have hup := closed_upcStatus hphase ho
      exact .step (final_closed hr hup _) (sim_closeSide hI hr hs ho)
    | true =>
      have hoff : c ∉ w.ln.cqWaiting := open_off_queue hI.queue hr ho
      refine Simulated.bind (sim_final hI hr ho (Or.inr (Or.inr rfl))) fun _ u hpath hu => ?_
      obtain ⟨w',b,d,fs',is'⟩ := u
      obtain ⟨hb,hd,hi,hio,hconn,htimer,hqueue⟩ := hu
      simp only [afterClosing] at hb
      subst hb hd hi
      have hclosed : ({ r with upcStatus := .close } : XtpConn).isOpen = false := by
        simp [XtpConn.isOpen]
      refine (sim_closeSide (path_inv hpath hI) hconn hs hclosed).mono fun _ t _ ht => ?_
      refine ⟨ht.busy, ht.due, ht.incidents, ht.io.trans hio, ht.conn, fun _ => ht.timer hs,
        fun hreg => ht.queue fun r' hr' => ?_⟩
      cases hconn.symm.trans hr'
      exact ⟨(hreg r hr).1, fun hc => absurd (hqueue c hc) hoff⟩

theorem sim_close_settled (hI : Inv ⟨w, .closing c, false, fs, is⟩)
    (hr : w.conns.get c = some r) (hs : r.status ≠ .close) (hreg : Regular w c) :
    Sim (some c) ⟨w, .closing c, false, fs, is⟩ (xEventClose c) fun _ t =>
      Returned is t ∧ t.w.io = w.io := by
  have hdone := sim_eventClose hI hr
  constructor
  have hres := hdone.result
  cases hrun : (xEventClose c).run w with
  | ok a w' =>
    rw [hrun] at hres
    obtain ⟨⟨u,b,d,fs',is'⟩,hpath,rfl,hb,hd,hi,hio,⟨r',hget,hclose,ho⟩,htimer,hq⟩ := hres
    subst hb hd hi
    have hsettle := hpath.tail (.settle hget hclose (hq hreg) (htimer hs))
    exact ⟨_, hsettle, rfl, ⟨Or.inr rfl, rfl, rfl⟩, hio⟩
  | error e w' =>
    rw [hrun] at hres
    exact hres

end TcpFunnel.ClosingSimulation
