import TcpFunnel.UpstreamSimulation

/-!
# The callbacks of a client

The four callbacks of `xtp_access.c` are simulated from the stage between two
callbacks, and end in such a stage.
-/

set_option autoImplicit false

namespace TcpFunnel.AccessSimulation
open TcpFunnel.BufferPool TcpFunnel.Connection TcpFunnel.SystemCalls TcpFunnel.TransferLoops
open TcpFunnel.Upstream TcpFunnel.Access TcpFunnel.EventLoop TcpFunnel.Simulation
open TcpFunnel.Actions TcpFunnel.Invariants TcpFunnel.RecordInvariant
open TcpFunnel.BufferInvariant TcpFunnel.StageInvariant TcpFunnel.TransferRuns
open TcpFunnel.PipeSimulation TcpFunnel.SchedulerSimulation TcpFunnel.ClosingSimulation
open TcpFunnel.UpstreamSimulation

variable {w : World} {busy : Busy} {fs : List Failure} {is : List Incident} {c : ConnId}
variable {r : XtpConn} {s t : Stage} {p : Pipe} {b : BufId} {rb : XtpBuf}

theorem client_fd (hI : Inv s) (hr : s.w.conns.get c = some r) (hs : r.status ≠ .close) (k : Sock)
    (hk : s.w.fds r.fd = some k) : k = ⟨c, .client⟩ := by
  rcases hI.descriptors.client c r hr hs with h | h
  · rw [h] at hk
    exact (Option.some.inj hk).symm
  · rw [h] at hk
    have hneg := hI.descriptors.nonneg (-1) k hk
    omega

theorem sim_requested (hI : Inv ⟨w, .filling c .pipe1 false, false, fs, is⟩) :
    Sim (some c) ⟨w, .filling c .pipe1 false, false, fs, is⟩
      (do if (← conn c).upcStatus = .working then xUpstreamSendToPeer c)
      fun _ t => Returned is t := by
  obtain ⟨r,hr⟩ := Option.ne_none_iff_exists'.mp (hI.records.live c rfl)
  have hrun : (do if (← conn c).upcStatus = .working then
      xUpstreamSendToPeer c : Callback Unit).run w =
      .ok () (if r.upcStatus = .working then w.setWatcher c .upcESend true else w) := by
    refine (bind_ok (conn_run hr)).trans ?_
    by_cases hup : r.upcStatus = .working
    · simp only [if_pos hup]
      rfl
    · simp only [if_neg hup]
      rfl
  exact Simulated.ok (u := ⟨if r.upcStatus = .working then w.setWatcher c .upcESend true else w,
    .idle, false, fs, is⟩) hrun (.single (.requested hr)) ⟨Or.inl rfl, rfl, rfl⟩

theorem enqueue_run {α : Type} (hr : w.conns.get c = some r) (next : Callback α) :
    let x : Callback α := do
      tailqInsertTail c
      modify (·.setLn fun ln => { ln with cqWaitingNum := ln.cqWaitingNum+1 })
      setConn c fun r => { r with status := .waiting }
      modify (·.note (.inserted c))
      next
    x.run w = next.run (enqueued w c r) ∨
    x.run w = .error .useAfterFree w ∧ ∃ d ∈ w.ln.cqWaiting, w.conns.get d = none := by
  intro x
  rcases tailqInsertTail_run hr with h | ⟨h,hd⟩
  · left
    have hget : ((w.setLn fun ln => { ln with cqWaiting := w.ln.cqWaiting ++ [c] }).setLn
        fun ln => { ln with cqWaitingNum := ln.cqWaitingNum+1 }).conns.get c = some r := hr
    exact (bind_ok h).trans ((bind_ok (modify_run ..)).trans
      ((bind_ok (setConn_run hget _)).trans (bind_ok (modify_run ..))))
  · exact Or.inr ⟨bind_error h, hd⟩

theorem sim_recvCb (hI : Inv ⟨w, .idle, false, fs, is⟩) (hr : w.conns.get c = some r)
    (hon : w.loop c .eRecv = true) :
    Sim (some c) ⟨w, .idle, false, fs, is⟩ (xRecvCb c) fun _ t => Returned is t := by
  have hs : r.status ≠ .close := by
    rw [(hI.records.phase c r hr).eRecv] at hon
    exact of_decide_eq_true hon
  unfold xRecvCb
  refine sim_receive XtpConn.fd (fun r bs => rfl) hI hr hs (client_fd hI hr hs)
    fun ok t hpath hdone => ?_
  have hI' := path_inv hpath hI
  obtain ⟨w',b',d',fs',is'⟩ := t
  obtain rfl : is' = is := hdone.incidents.resolve_right (by simp)
  obtain rfl : d' = false := hdone.due
  cases ok with
  | true =>
    obtain rfl : b' = .filling c .pipe1 false := hdone.busy
    obtain ⟨r',hr'⟩ := Option.ne_none_iff_exists'.mp (hI'.records.live c rfl)
    rw [if_pos rfl]
    refine .step (conn_run hr') ?_
    by_cases hn : r'.status = .none
    · simp only [if_pos hn]
      rcases enqueue_run hr' (do
        let _ ← xUpstreamHandle
        if (← conn c).upcStatus = .working then xUpstreamSendToPeer c) with h | ⟨h,d,hd,hnone⟩
      · have hin : Acts (some c) ⟨w', .filling c .pipe1 false, false, fs', is'⟩
            ⟨enqueued w' c r', .filling c .pipe1 false, true, fs', is'⟩ := .single (.enqueue hr' hn)
        refine .congr h (.moved hin rfl ?_)
        refine Simulated.bind (sim_handle (by simp) (path_inv hin hI')) fun _ u hpath' hu => ?_
        have hIu := path_inv hpath' (path_inv hin hI')
        obtain ⟨w3,b3,d3,fs3,is3⟩ := u
        obtain rfl : b3 = .filling c .pipe1 false := hu.busy
        obtain rfl : d3 = false := hu.due
        obtain rfl : is3 = is' := hu.incidents
        exact sim_requested hIu
      · exact Simulated.error h .refl ⟨rfl, rfl, Or.inr (Or.inl ⟨rfl, by simp, d, hd, hnone⟩)⟩
    · simp only [if_neg hn]
      exact sim_requested hI'
  | false =>
    obtain rfl : b' = .closing c := hdone.busy
    obtain ⟨r',hr'⟩ := Option.ne_none_iff_exists'.mp (hI'.records.live c rfl)
    refine (sim_close_settled hI' hr' (hdone.readable r' hr') hdone.regular).mono
      fun _ t _ ht => ht.1

/-- The client has been closed with nothing left to send: on the way the pipe
was empty, and no byte has been transferred since. -/
def Emptied (s : Stage) (c : ConnId) (t : Stage) : Prop :=
  ∃ m, Acts (some c) s m ∧ m.busy = .idle ∧ (∃ r, m.w.conns.get c = some r ∧ r.status ≠ .close) ∧
    unsent m.w c .pipe2 = [] ∧ m.incidents = s.incidents ∧ t.w.io = m.w.io

/-- `x_send_cb` has returned: a client it closed has been sent everything,
unless `send` reported an error. -/
structure SendCbDone (s : Stage) (c : ConnId) (t : Stage) : Prop
    extends Returned s.incidents t where
  closed : (∀ r, t.w.conns.get c = some r → r.status ≠ .close) ∨
    (∃ a ∈ s.w.sys.sends, EndsSend a) ∨ Emptied s c t

theorem SendCbDone.later {u : Stage} (h : SendCbDone u c t) (hpath : Acts (some c) s u)
    (hi : u.incidents = s.incidents) (hused : ∃ used, s.w.sys.sends = used ++ u.w.sys.sends) :
    SendCbDone s c t := by
  obtain ⟨used,hu⟩ := hused
  refine ⟨hi ▸ h.toReturned, h.closed.imp_right (Or.imp ?_ ?_)⟩
  · rintro ⟨a,ha,hend⟩
    exact ⟨a, hu ▸ List.mem_append_right used ha, hend⟩
  · rintro ⟨m,hm,hidle,hr,hempty,hinc,hio⟩
    exact ⟨m, hpath.trans hm, hidle, hr, hempty, hinc.trans hi, hio⟩

theorem sim_sendCbEnd (hI : Inv ⟨w, .idle, false, fs, is⟩) (hr : w.conns.get c = some r)
    (hs : r.status ≠ .close) (hempty : unsent w c .pipe2 = []) :
    Sim (some c) ⟨w, .idle, false, fs, is⟩ (xSendCbEnd c)
      fun _ t => SendCbDone ⟨w, .idle, false, fs, is⟩ c t := by
  unfold xSendCbEnd
  refine .step (conn_run hr) ?_
  by_cases hup : r.upcStatus = .close
  · rw [if_pos hup]
    have hdoom : Acts (some c) ⟨w, .idle, false, fs, is⟩ ⟨w, .closing c, false, fs, is⟩ :=
      .single (.doom hr)
    have hreg : Regular w c := inv_regular hI (by simp)
    refine .moved hdoom rfl ((sim_close_settled (path_inv hdoom hI) hr hs hreg).mono ?_)
    rintro _ t - ⟨hret,hio⟩
    exact ⟨hret, Or.inr (Or.inr ⟨_, .refl, rfl, ⟨r, hr, hs⟩, hempty, rfl, hio⟩)⟩
  · rw [if_neg hup]
    refine Simulated.ok (u := ⟨w.setWatcher c .eSend false, .idle, false, fs, is⟩) rfl
      (.single (.restClient hr hempty hup)) ⟨⟨Or.inl rfl, rfl, rfl⟩, Or.inl fun r' hr' => ?_⟩
    cases hr.symm.trans hr'
    exact hs

theorem sim_sendCbAt (buffers : ℕ) {w : World} {r : XtpConn} {fs : List Failure}
    (hI : Inv ⟨w, .idle, false, fs, is⟩) (hr : w.conns.get c = some r) (hs : r.status ≠ .close) :
    Sim (some c) ⟨w, .idle, false, fs, is⟩ (xSendCbAt c buffers)
      fun _ t => SendCbDone ⟨w, .idle, false, fs, is⟩ c t := by
  induction buffers generalizing w r fs with
  | zero => exact sim_pending rfl .refl rfl rfl
  | succ buffers ih =>
    unfold xSendCbAt
    refine .step (conn_run hr) ?_
    cases hpipe : r.pipe2 with
    | nil => exact sim_sendCbEnd hI hr hs (unsent_nil (p := .pipe2) hr hpipe)
    | cons b rest =>
      have hb : (r.pipe .pipe2).head? = some b := by
        rw [show r.pipe .pipe2 = b::rest from hpipe]
        rfl
      obtain ⟨rb,hrb,-⟩ := (hI.buffers.shape c .pipe2).each b
        (mem_pipes hr (List.mem_of_mem_head? hb))
      refine .step (get_run w) ?_
      refine Simulated.bind (sim_sendBuf (p := .pipe2) _ hI hr hs hb hrb (client_fd hI hr hs))
        fun out u hpath hu => ?_
      obtain ⟨w',b',d',fs',is'⟩ := u
      have hI' := path_inv hpath hI
      have hr' : w'.conns.get c = some r := (congrArg (·.get c) hu.conns).trans hr
      obtain ⟨used,hused,-⟩ := hu.used
      obtain rfl : d' = false := hu.due
      obtain rfl : is' = is := hu.incidents
      cases out with
      | error =>
        obtain rfl : b' = .closing c := hu.busy
        refine (sim_close_settled hI' hr' hs hu.regular).mono fun _ t _ ht => ?_
        exact ⟨ht.1, Or.inr (Or.inl (hu.failed rfl))⟩
      | again =>
        obtain rfl : b' = .idle := hu.busy
        refine Simulated.pure ⟨⟨Or.inl rfl, rfl, rfl⟩, Or.inl fun r'' hr'' => ?_⟩
        cases hr'.symm.trans hr''
        exact hs
      | done =>
        obtain rfl : b' = .idle := hu.busy
        obtain ⟨rb',hrb',hsent⟩ := hu.done rfl
        refine .step (by rw [onHeap_run, buf_run hrb']) ?_
        by_cases hend : rb'.pos = rb'.endPos
        · rw [if_pos hend]
          have hunlink : Acts (some c) ⟨w', .idle, false, fs', is'⟩
              ⟨unlinked w' c .pipe2 r b, .idle, false, fs', is'⟩ :=
            .single (.unlink hr' hb hrb' (Or.inl ⟨rfl, hend⟩))
          refine sim_step hunlink (unlinkHead_run hI' hr' hb) ?_
          have hget : (unlinked w' c .pipe2 r b).conns.get c =
              some (r.setPipe .pipe2 (r.pipe .pipe2).tail) := by simp
          exact (ih (path_inv hunlink hI') hget hs).mono fun _ t _ ht =>
            ht.later (hpath.trans hunlink) rfl ⟨used, hused⟩
        · rw [if_neg hend]
          have hempty : unsent w' c .pipe2 = [] := unsent_tail hI' hr' hb hrb' hsent hend
          exact (sim_sendCbEnd hI' hr' hs hempty).mono fun _ t _ ht =>
            ht.later hpath rfl ⟨used, hused⟩

theorem sim_sendCb (hI : Inv ⟨w, .idle, false, fs, is⟩) (hr : w.conns.get c = some r)
    (hon : w.loop c .eSend = true) :
    Sim (some c) ⟨w, .idle, false, fs, is⟩ (xSendCb c)
      fun _ t => SendCbDone ⟨w, .idle, false, fs, is⟩ c t :=
  .step (conn_run hr) (sim_sendCbAt _ hI hr ((hI.records.phase c r hr).eSend hon))

theorem sim_release {r : XtpConn} (hI : Inv ⟨w, .closing c, false, fs, is⟩)
    (hr : w.conns.get c = some r) (hs : r.status = .close) (ho : r.isOpen = false) :
    Sim (some c) ⟨w, .closing c, false, fs, is⟩ (do
      evStop c .eTimer
      freePipe c .pipe1 ((← conn c).pipe1.length+1)
      freePipe c .pipe2 ((← conn c).pipe2.length+1)
      zfree c) fun _ t => Returned is t ∧ t.w.conns.get c = none := by
  have hstop : Acts (some c) ⟨w, .closing c, false, fs, is⟩
      ⟨w.setWatcher c .eTimer false, .closing c, false, fs, is⟩ := .single .stopTimer
  have hoff : (w.setWatcher c .eTimer false).loop c .eTimer = false := by simp
  refine sim_step hstop (evStop_run ..) (.step (conn_run (r := r) hr) ?_)
  have hI1 := path_inv hstop hI
  refine Simulated.bind (sim_freePipe _ hI1 (r := r) hr) fun _ u hpath hu => ?_
  obtain ⟨w1,rfl,hr1,hloop1⟩ := hu
  have hI2 := path_inv hpath hI1
  refine .step (conn_run hr1) (Simulated.bind (sim_freePipe _ hI2 hr1) fun _ u _ hu => ?_)
  obtain ⟨w2,rfl,hr2,hloop2⟩ := hu
  have hfree : (zfree c).run w2 = .ok () (freed w2 c) := bind_ok (conn_run hr2)
  refine Simulated.ok (u := ⟨freed w2 c, .over, false, fs, is⟩) hfree
    (.single (.free hr2 hs ho rfl rfl ?_)) ⟨⟨Or.inr rfl, rfl, rfl⟩, by simp⟩
  rw [hloop2, hloop1]
  exact hoff

theorem sim_marked {w : World} {r : XtpConn} (hI : Inv ⟨w, .closing c, false, fs, is⟩)
    (hr : w.conns.get c = some r) :
    Sim (some c) ⟨w, .closing c, false, fs, is⟩ (do
      xEventClose c
      evStop c .eTimer
      freePipe c .pipe1 ((← conn c).pipe1.length+1)
      freePipe c .pipe2 ((← conn c).pipe2.length+1)
      zfree c) fun _ t => Returned is t ∧ t.w.conns.get c = none := by
  refine Simulated.bind (sim_eventClose hI hr) fun _ u hpath hu => ?_
  have hIu := path_inv hpath hI
  obtain ⟨w',b',d',fs',is'⟩ := u
  obtain rfl : b' = .closing c := hu.busy
  obtain rfl : d' = false := hu.due
  obtain rfl : is' = is := hu.incidents
  obtain ⟨r',hr',hclose,ho⟩ := hu.conn
  exact sim_release hIu hr' hclose ho

theorem sim_timeoutCb (hI : Inv ⟨w, .idle, false, fs, is⟩) (hr : w.conns.get c = some r) :
    Sim (some c) ⟨w, .idle, false, fs, is⟩ (do
      expire c .eTimer XtpConn.timerRepeat
      xTimeoutCb c) fun _ t =>
        Returned (if r.status = .waiting then is ++ [.timedOutWaiting c] else is) t ∧
          t.w.conns.get c = none := by
  obtain ⟨w',hw',hget,hstop⟩ : ∃ w', (if r.timerRepeat = 0 then w.setWatcher c .eTimer false
      else w) = w' ∧ w'.conns.get c = some r ∧ ∀ (v : XtpConn) is,
      Acts (some c) ⟨w.putConn c v, .closing c, false, fs, is⟩
        ⟨w'.putConn c v, .closing c, false, fs, is⟩ := by
    by_cases h : r.timerRepeat = 0
    · exact ⟨_, if_pos h, hr, fun _ _ => .single .stopTimer⟩
    · exact ⟨w, if_neg h, hr, fun _ _ => .refl⟩
  refine .step (hw' ▸ expire_run hr ..) ?_
  unfold xTimeoutCb
  refine .step (conn_run hget) ?_
  by_cases hs : r.status = .close
  · have hdoom : Acts (some c) ⟨w, .idle, false, fs, is⟩
        ⟨w.putConn c r, .closing c, false, fs, is⟩ := by
      rw [putConn_self hr]
      exact .single (.doom hr)
    have hdoom := hdoom.trans (hstop r is)
    rw [putConn_self hget] at hdoom
    rw [if_neg (by simp [hs])]
    simp only [hs]
    exact .moved hdoom rfl (sim_marked (path_inv hdoom hI) hget)
  · have hmark : Acts (some c) ⟨w, .idle, false, fs, is⟩
        ⟨w'.putConn c { r with status := .timeout }, .closing c, false, fs,
          if r.status = .waiting then is ++ [.timedOutWaiting c] else is⟩ :=
      .trans (.single (.timeOut hr hs)) (hstop _ _)
    simp only [ne_eq, hs, not_false_eq_true, if_true]
    refine .step (setConn_run hget _) (.moved hmark rfl ?_)
    have hget' : (w'.putConn c { r with status := .timeout }).conns.get c =
        some { r with status := .timeout } := by simp
    exact sim_marked (path_inv hmark hI) hget'

inductive AcceptResult (w : World) : EStateM.Result Stop World AcceptAnswer → Prop
  | stopped {w'} (hio : w'.io = w.io) (hlog : w'.log = w.log) : AcceptResult w (.error .pending w')
  | opened {fd t} (hfd : Fresh w fd) (ht : Shrinks w.sys t) :
      AcceptResult w (.ok (.fd fd) ((accepted w fd).setSys t))
  | failed {a t} (ha : a = .eagain ∨ a = .error ∧ .error ∈ w.sys.accepts) (ht : Shrinks w.sys t) :
      AcceptResult w (.ok a (w.setSys t))

theorem accept_run (w : World) : AcceptResult w (accept.run w) := by
  unfold accept
  cases ha : w.sys.accepts with
  | nil =>
    have h : nextAccept.run w = .error .pending w := answer_none ha
    rw [bind_error h]
    exact .stopped rfl rfl
  | cons a rest =>
    have h : nextAccept.run w = .ok a (w.setSys { w.sys with accepts := rest }) := answer_some ha
    have ht : Shrinks w.sys { w.sys with accepts := rest } :=
      { shrinks_refl w.sys with accepts := ⟨[a], ha.symm⟩ }
    rw [bind_ok h]
    cases a with
    | eagain => exact .failed (Or.inl rfl) ht
    | error => exact .failed (Or.inr ⟨rfl, ha ▸ List.mem_cons_self ..⟩) ht
    | fd newfd =>
      by_cases hf : Fresh w newfd
      · have hne : newfd ≠ -1 := by
          rintro rfl
          exact absurd hf.1 (by decide)
        have hw : ((w.setSys { w.sys with accepts := rest }).openFd newfd ⟨w.conns.next, .client⟩) =
            (accepted w newfd).setSys { w.sys with accepts := rest } := by
          simp only [accepted, if_neg hne]
          rfl
        have hf' : Fresh (w.setSys { w.sys with accepts := rest }) newfd := hf
        simp only [hf', not_true_eq_false, if_false, bind_ok (get_run _)]
        have hopened := AcceptResult.opened (w := w) hf ht
        rw [← hw] at hopened
        exact hopened
      · have hf' : ¬ Fresh (w.setSys { w.sys with accepts := rest }) newfd := hf
        simp only [hf', not_false_eq_true, if_true, bind_ok (get_run _)]
        exact .stopped rfl rfl

theorem shrinks_trans {t t' t'' : Answers} (h : Shrinks t t') (h' : Shrinks t' t'') :
    Shrinks t t'' :=
  ⟨h'.accepts.trans h.accepts, h'.recvs.trans h.recvs, h'.sends.trans h.sends,
    h'.sockets.trans h.sockets, h'.fcntls.trans h.fcntls, h'.connects.trans h.connects,
    h'.sockopts.trans h.sockopts⟩

/-- The loop ends with a new descriptor or, on an error, with `-1`. -/
theorem acceptLoop_run (turns : ℕ) (w : World) :
    (∃ w', (acceptLoop turns).run w = .error .pending w' ∧ w'.io = w.io ∧ w'.log = w.log) ∨
    ∃ fd t, Shrinks w.sys t ∧
      ((0 ≤ fd ∧ w.fds fd = none) ∨ fd = -1 ∧ .error ∈ w.sys.accepts) ∧
      (acceptLoop turns).run w = .ok fd ((accepted w fd).setSys t) := by
  induction turns generalizing w with
  | zero => exact Or.inl ⟨w, rfl, rfl, rfl⟩
  | succ turns ih =>
    have haccept := accept_run w
    unfold acceptLoop
    cases hrun : accept.run w with
    | error e w' =>
      rw [hrun] at haccept
      obtain ⟨hio,hlog⟩ | _ | _ := haccept
      exact Or.inl ⟨w', bind_error hrun, hio, hlog⟩
    | ok a w' =>
      rw [hrun] at haccept
      rw [bind_ok hrun]
      cases haccept with
      | @opened fd t hfd ht => exact Or.inr ⟨fd, t, ht, Or.inl hfd, rfl⟩
      | @failed a t ha ht =>
        rcases ha with rfl | ⟨rfl,herr⟩
        · rcases ih (w.setSys t) with ⟨w',h,hio,hlog⟩ | ⟨fd,t',ht',hfd,h⟩
          · exact Or.inl ⟨w', h, hio, hlog⟩
          · have hearlier := hfd.imp_right (And.imp_right fun h => ht.accepts.subset h)
            refine Or.inr ⟨fd, t', shrinks_trans ht ht', hearlier, h.trans ?_⟩
            by_cases hne : fd = -1 <;> simp [accepted, hne, World.setSys, World.openFd]
        · exact Or.inr ⟨-1, t, ht, Or.inr ⟨rfl, herr⟩, rfl⟩

def takeIn (c : ConnId) (fd timeout : ℤ) : Callback Unit := do
  modify fun w => { w with conns := w.conns.push (newConn fd timeout) }
  let _ ← xSetNonBlock
  evStart c .eRecv
  evStart c .eTimer
  modify (·.setLn fun ln => { ln with cCount := ln.cCount+1 })

theorem admit_run (w : World) (fd : ℤ) :
    (∃ w', (takeIn w.conns.next fd w.ln.timeout).run w = .error .pending w' ∧ w'.io = w.io ∧
      w'.log = w.log) ∨
    ∃ t, Shrinks w.sys t ∧
      (takeIn w.conns.next fd w.ln.timeout).run w = .ok () ((admitted w fd).setSys t) := by
  unfold takeIn
  rw [bind_ok (modify_run ..)]
  rcases xSetNonBlock_run (w := { w with conns := w.conns.push (newConn fd w.ln.timeout) })
    with ⟨w',h,hio,hlog⟩ | ⟨rc,rest,hsuf,-,h⟩
  · exact Or.inl ⟨w', bind_error h, hio, hlog⟩
  · have ht : Shrinks w.sys { w.sys with fcntls := rest } :=
      { shrinks_refl w.sys with fcntls := hsuf }
    refine Or.inr ⟨_, ht, (bind_ok h).trans ?_⟩
    rw [bind_ok (evStart_run ..), bind_ok (evStart_run ..), modify_run]
    simp [admitted, World.setSys, World.setWatcher, World.setLn]

theorem sim_acceptCb :
    Sim none ⟨w, .idle, false, fs, is⟩ xAcceptCb
      fun _ t => ∃ is', Returned is' t ∧ t.failures = fs ∧
        (is' = is ∨ is' = is ++ [.noClient] ∧ .error ∈ w.sys.accepts) := by
  unfold xAcceptCb
  refine .step (get_run w) ?_
  rcases acceptLoop_run (w.sys.accepts.length+1) w with ⟨w',h,hio,hlog⟩ | ⟨fd,t,ht,hfd,h⟩
  · exact sim_pending_bind h .refl hio hlog
  refine .step h (.step (get_run _) ?_)
  have hanswers : Acts none ⟨w, .idle, false, fs, is⟩ ⟨w.setSys t, .idle, false, fs, is⟩ :=
    .single (.answers t ht)
  have hsys : (accepted w fd).setSys t = accepted (w.setSys t) fd := by
    by_cases hne : fd = -1 <;> simp [accepted, hne, World.setSys, World.openFd]
  rw [hsys]
  set u := accepted (w.setSys t) fd with hu
  set is' := if fd = -1 then is ++ [.noClient] else is with his
  have hblame : is' = is ∨ is' = is ++ [.noClient] ∧ .error ∈ w.sys.accepts := by
    rcases hfd with ⟨hge,-⟩ | ⟨rfl,herr⟩
    · exact Or.inl (if_neg (by omega))
    · exact Or.inr ⟨if_pos rfl, herr⟩
  have hfd := hfd.imp_right And.left
  by_cases hmax : u.ln.cCount ≥ u.ln.srvcf.accessMax
  · rw [if_pos hmax]
    have haway : Acts none ⟨w, .idle, false, fs, is⟩ ⟨u.closeFd fd, .idle, false, fs, is'⟩ :=
      hanswers.tail (.turnAway hfd)
    exact .congr (close_run u fd)
      (.moved haway rfl (Simulated.pure ⟨is', ⟨Or.inl rfl, rfl, rfl⟩, rfl, hblame⟩))
  · rw [if_neg hmax]
    refine .step (get_run u) ?_
    have hln : u.ln = w.ln := by simp [hu]
    rcases admit_run u fd with ⟨w',h,hio,hlog⟩ | ⟨t',ht',h⟩
    · constructor
      have hrun : (takeIn u.conns.next fd u.ln.timeout).run u = .error .pending w' := h
      refine hrun ▸ ⟨_, .refl, hio.trans (by simp [hu]), hlog.trans (by simp [hu]), Or.inl rfl⟩
    · have hlt : w.ln.cCount < w.ln.srvcf.accessMax := by
        rw [← hln]
        exact Int.not_le.mp hmax
      have hin : Acts none ⟨w, .idle, false, fs, is⟩
          ⟨(admitted u fd).setSys t', .idle, false, fs, is'⟩ :=
        (hanswers.tail (.welcome hfd hlt)).tail (.answers t' (by simpa [hu] using ht'))
      exact .congr h
        (.moved hin rfl (Simulated.pure ⟨is', ⟨Or.inl rfl, rfl, rfl⟩, rfl, hblame⟩))

end TcpFunnel.AccessSimulation
