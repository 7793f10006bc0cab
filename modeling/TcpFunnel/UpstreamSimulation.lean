import TcpFunnel.ClosingSimulation

/-!
# The callbacks of an upstream

The four callbacks of `xtp_upstream.c` are simulated from the stage between
two callbacks, and end in such a stage.
-/

set_option autoImplicit false

namespace TcpFunnel.UpstreamSimulation
open TcpFunnel.BufferPool TcpFunnel.Connection TcpFunnel.SystemCalls TcpFunnel.TransferLoops
open TcpFunnel.Upstream TcpFunnel.Access TcpFunnel.EventLoop TcpFunnel.Simulation
open TcpFunnel.Actions TcpFunnel.Invariants TcpFunnel.RecordInvariant
open TcpFunnel.BufferInvariant TcpFunnel.StageInvariant TcpFunnel.TransferRuns
open TcpFunnel.PipeSimulation TcpFunnel.SchedulerSimulation TcpFunnel.ClosingSimulation

variable {w : World} {busy : Busy} {fs : List Failure} {is : List Incident} {c : ConnId}
variable {r : XtpConn} {s t : Stage} {p : Pipe} {b : BufId} {rb : XtpBuf}

theorem sockopt_run (w : World) :
    nextSockopt.run w = .error .pending w ∨
    ∃ a rest, rest <:+ w.sys.sockopts ∧
      nextSockopt.run w = .ok a (w.setSys { w.sys with sockopts := rest }) := by
  cases h : w.sys.sockopts with
  | nil => exact Or.inl (answer_none h)
  | cons a rest => exact Or.inr ⟨a, rest, ⟨[a], rfl⟩, answer_some h⟩

theorem connected_run (hr : w.conns.get c = some r) {i : ℕ}
    (hi : i < w.ln.srvcf.upstream.length) (hupcf : r.upcf = some i) :
    ∃ timeout, (do
      evStop c .upcEConnected
      evStart c .upcESend
      let upcf ← peer r.upcf
      setConn c fun r => { r with upcTimerRepeat := 10*upcf.timeout }
      evTimerAgain c .upcETimer (10*upcf.timeout)
      setConn c fun r => { r with upcStatus := .working } : Callback Unit).run w =
        .ok () (connected w c r timeout) := by
  set w1 := (w.setWatcher c .upcEConnected false).setWatcher c .upcESend true with hw1
  obtain ⟨q,hq⟩ := peer_run (w := w1) hi
  have hget : w1.conns.get c = some r := hr
  have hget' : ((w1.putConn c { r with upcTimerRepeat := 10*q.timeout }).setWatcher c .upcETimer
      (10*q.timeout ≠ 0)).conns.get c = some { r with upcTimerRepeat := 10*q.timeout } := by simp
  refine ⟨q.timeout, ?_⟩
  rw [bind_ok (evStop_run ..), bind_ok (evStart_run ..), ← hw1, hupcf, bind_ok hq,
    bind_ok (setConn_run hget _), bind_ok (evTimerAgain_run ..), setConn_run hget']
  simp [hw1, connected, World.putConn, World.setWatcher]

theorem sim_connectedCb (hI : Inv ⟨w, .idle, false, fs, is⟩) (hr : w.conns.get c = some r)
    (hon : w.loop c .upcEConnected = true) :
    Sim (some c) ⟨w, .idle, false, fs, is⟩ (xUpstreamConnectedCb c) fun _ t => Returned is t := by
  have hphase := hI.records.phase c r hr
  have hup : r.upcStatus = .connect := by
    rw [hphase.upcEConnected] at hon
    exact of_decide_eq_true hon
  have hopen : r.isOpen := by simp [XtpConn.isOpen, hup]
  obtain ⟨i,hi,hupcf⟩ := hphase.upcf (by simp [hup])
  unfold xUpstreamConnectedCb
  refine .step (conn_run hr) ?_
  rcases sockopt_run w with h | ⟨a,rest,hsuf,h⟩
  · exact sim_pending_bind h .refl rfl rfl
  have hanswers : Acts (some c) ⟨w, .idle, false, fs, is⟩
      ⟨w.setSys { w.sys with sockopts := rest }, .idle, false, fs, is⟩ :=
    .single (.answers _ { shrinks_refl w.sys with sockopts := hsuf })
  have hI' := path_inv hanswers hI
  have hget : (w.setSys { w.sys with sockopts := rest }).conns.get c = some r := hr
  refine sim_step hanswers h ?_
  have hfinal := (sim_final hI' hget hopen (Or.inl rfl)).mono
    fun _ t _ ht => ht.returned rfl
  cases a with
  | error => exact hfinal
  | valopt v =>
    by_cases hv : v ≠ 0
    · simp only [if_pos hv]
      exact hfinal
    · simp only [if_neg hv]
      obtain ⟨timeout,hrun⟩ := connected_run hget hi hupcf
      exact Simulated.ok (u := ⟨connected _ c r timeout, .idle, false, fs, is⟩) hrun
        (.single (.connect timeout hget hup)) ⟨Or.inl rfl, rfl, rfl⟩

theorem open_fd (hI : Inv s) (hr : s.w.conns.get c = some r) (ho : r.isOpen) (k : Sock)
    (hk : s.w.fds r.upcFd = some k) : k = ⟨c, .upstream⟩ := by
  rw [hI.descriptors.upstream c r hr ho] at hk
  exact (Option.some.inj hk).symm

theorem sim_upstreamRecvCb (hI : Inv ⟨w, .idle, false, fs, is⟩) (hr : w.conns.get c = some r)
    (hon : w.loop c .upcERecv = true) :
    Sim (some c) ⟨w, .idle, false, fs, is⟩ (xUpstreamRecvCb c) fun _ t => ∃ is', Returned is' t ∧
      (is' = is ∨ is' = is ++ [.bytesLost c] ∧
        CutShort (room w c .pipe2) (capacity w.heap) w.sys.recvs) := by
  have ho : r.isOpen := by
    rw [← (hI.records.phase c r hr).upcERecv]
    exact hon
  refine sim_receive (f := fun ok => if ok then xAccessSendToClient c else xUpstreamFinal c)
    XtpConn.upcFd (fun r bs => rfl) hI hr ho (open_fd hI hr ho) fun ok t hpath hdone => ?_
  have hI' := path_inv hpath hI
  obtain ⟨w',b',d',fs',is'⟩ := t
  have hlost : is' = is ∨ is' = is ++ [.bytesLost c] ∧
      CutShort (room w c .pipe2) (capacity w.heap) w.sys.recvs :=
    hdone.incidents.imp_right And.right
  obtain rfl : d' = false := hdone.due
  cases ok with
  | true =>
    obtain rfl : b' = .filling c .pipe2 false := hdone.busy
    obtain ⟨r',hr'⟩ := Option.ne_none_iff_exists'.mp (hI'.records.live c rfl)
    exact Simulated.ok (u := ⟨w'.setWatcher c .eSend true, .idle, false, fs', is'⟩) rfl
      (.single (.answered hr')) ⟨is', ⟨Or.inl rfl, rfl, rfl⟩, hlost⟩
  | false =>
    obtain rfl : b' = .losing c .pipe2 := hdone.busy
    obtain ⟨r',hr'⟩ := Option.ne_none_iff_exists'.mp (hI'.records.live c rfl)
    refine (sim_final hI' hr' (hdone.readable r' hr') (Or.inr (Or.inl ⟨_, rfl⟩))).mono
      fun _ t _ ht => ⟨is', ht.returned rfl, hlost⟩

/-- A pipe whose first buffer has been sent but is not full holds no other. -/
theorem unsent_tail (hI : Inv s) (hr : s.w.conns.get c = some r) (hb : (r.pipe p).head? = some b)
    (hrb : s.w.heap.bufs.get b = some rb) (hsent : rb.pos = rb.last) (hnot : rb.pos ≠ rb.endPos) :
    unsent s.w c p = [] := by
  have hshape := hI.buffers.shape c p
  have hpipe := pipes_of hr p
  rw [hpipe] at hshape
  unfold unsent
  rw [hpipe]
  cases hbs : r.pipe p with
  | nil => rfl
  | cons a rest =>
    rw [hbs] at hb hshape
    cases hb
    cases rest with
    | nil => simp [window, hrb, hsent]
    | cons a' rest =>
      have hfull := hshape.front b (by simp) rb hrb
      exact absurd (hsent.trans hfull) hnot

theorem unsent_nil (hr : w.conns.get c = some r) (hp : r.pipe p = []) : unsent w c p = [] := by
  unfold unsent
  rw [pipes_of hr, hp]
  rfl

/-- The bytes left behind and the answer that made `x_upstream_send_cb` stop. -/
def Stalls (w : World) (c : ConnId) (is : List Incident) (t : Stage) : Prop :=
  t.incidents = is ∨ t.incidents = is ++ [.stalled c] ∧
    ∃ used, w.sys.sends = used ++ t.w.sys.sends ∧ used.getLast? = some .eagain

theorem Stalls.later {w' : World} (h : Stalls w' c is t)
    (hused : ∃ used, w.sys.sends = used ++ w'.sys.sends) : Stalls w c is t := by
  obtain ⟨used,hu⟩ := hused
  refine h.imp_right fun ⟨hi,used',hu',hlast⟩ => ⟨hi, used ++ used', ?_, ?_⟩
  · rw [hu, hu', List.append_assoc]
  · rw [List.getLast?_append, hlast]
    rfl

theorem sim_upstreamSendCbAt (buffers : ℕ) {w : World} {r : XtpConn} {fs : List Failure}
    (hI : Inv ⟨w, .idle, false, fs, is⟩) (hr : w.conns.get c = some r)
    (hup : r.upcStatus = .working) :
    Sim (some c) ⟨w, .idle, false, fs, is⟩ (xUpstreamSendCbAt c buffers)
      fun _ t => t.busy = .idle ∧ t.due = false ∧ Stalls w c is t := by
  induction buffers generalizing w r fs with
  | zero => exact sim_pending rfl .refl rfl rfl
  | succ buffers ih =>
    have hopen : r.isOpen := by simp [XtpConn.isOpen, hup]
    unfold xUpstreamSendCbAt
    refine .step (conn_run hr) ?_
    cases hpipe : r.pipe1 with
    | nil =>
      have hrest : Act (some c) ⟨w, .idle, false, fs, is⟩ _ := .restUpstream hr
      rw [if_pos (unsent_nil (p := .pipe1) hr hpipe)] at hrest
      exact Simulated.ok (u := ⟨w.setWatcher c .upcESend false, .idle, false, fs, is⟩) rfl
        (.single hrest) ⟨rfl, rfl, Or.inl rfl⟩
    | cons b rest =>
      have hb : (r.pipe .pipe1).head? = some b := by
        rw [show r.pipe .pipe1 = b::rest from hpipe]
        rfl
      obtain ⟨rb,hrb,-⟩ := (hI.buffers.shape c .pipe1).each b
        (mem_pipes hr (List.mem_of_mem_head? hb))
      refine .step (get_run w) ?_
      refine Simulated.bind (sim_sendBuf (p := .pipe1) _ hI hr hup hb hrb (open_fd hI hr hopen))
        fun out u hpath hu => ?_
      obtain ⟨w',b',d',fs',is'⟩ := u
      have hI' := path_inv hpath hI
      have hbusy := hu.busy
      have hdue := hu.due
      have his := hu.incidents
      simp only at hbusy hdue his
      subst hbusy hdue his
      have hr' : w'.conns.get c = some r := (congrArg (·.get c) hu.conns).trans hr
      obtain ⟨used,hused,hagain⟩ := hu.used
      by_cases hout : out = .error
      · subst hout
        refine (sim_final hI' hr' hopen (Or.inr (Or.inl ⟨_, rfl⟩))).mono fun _ t _ ht => ?_
        exact ⟨ht.busy, ht.due, Or.inl ht.incidents⟩
      rw [if_neg hout] at hI' ⊢
      obtain ⟨rb',hrb',-⟩ := (hI'.buffers.shape c .pipe1).each b
        (mem_pipes hr' (List.mem_of_mem_head? hb))
      have hrest : Simulated (Act (some c)) Stage.w Cut ⟨w', .idle, false, fs', is'⟩ (do
          let r ← onHeap (buf b)
          if r.pos = r.endPos then
            unlinkHead c .pipe1 b
            xUpstreamSendCbAt c buffers
          else
            evStop c .upcESend)
          fun _ t => t.busy = .idle ∧ t.due = false ∧ Stalls w c is' t := by
        refine .step (by rw [onHeap_run, buf_run hrb']) ?_
        by_cases hend : rb'.pos = rb'.endPos
        · rw [if_pos hend]
          have hunlink : Acts (some c) ⟨w', .idle, false, fs', is'⟩
              ⟨unlinked w' c .pipe1 r b, .idle, false, fs', is'⟩ :=
            .single (.unlink hr' hb hrb' (Or.inl ⟨rfl, hend⟩))
          refine sim_step hunlink (unlinkHead_run hI' hr' hb) ?_
          have hget : (unlinked w' c .pipe1 r b).conns.get c =
              some (r.setPipe .pipe1 (r.pipe .pipe1).tail) := by simp
          refine (ih (path_inv hunlink hI') hget hup).mono fun _ t _ ht => ?_
          exact ⟨ht.1, ht.2.1, ht.2.2.later ⟨used, hused⟩⟩
        · rw [if_neg hend]
          refine Simulated.ok (u := ⟨w'.setWatcher c .upcESend false, .idle, false, fs',
            if unsent w' c .pipe1 = [] then is' else is' ++ [.stalled c]⟩) rfl
            (.single (.restUpstream hr')) ⟨rfl, rfl, ?_⟩
          by_cases hu' : unsent w' c .pipe1 = []
          · exact Or.inl (if_pos hu')
          · refine Or.inr ⟨if_neg hu', used, hused, hagain ?_⟩
            cases out with
            | error => exact absurd rfl hout
            | again => rfl
            | done =>
              obtain ⟨rb'',hrb'',hsent⟩ := hu.done rfl
              cases hrb'.symm.trans hrb''
              exact absurd (unsent_tail hI' hr' hb hrb' hsent hend) hu'
      cases out with
      | error => exact absurd rfl hout
      | again => exact hrest
      | done => exact hrest

theorem sim_upstreamSendCb (hI : Inv ⟨w, .idle, false, fs, is⟩) (hr : w.conns.get c = some r)
    (hon : w.loop c .upcESend = true) :
    Sim (some c) ⟨w, .idle, false, fs, is⟩ (xUpstreamSendCb c)
      fun _ t => t.busy = .idle ∧ t.due = false ∧ Stalls w c is t :=
  .step (conn_run hr) (sim_upstreamSendCbAt _ hI hr ((hI.records.phase c r hr).upcESend hon))

theorem expire_run (hr : w.conns.get c = some r) (k : Watcher) (period : XtpConn → ℤ) :
    (expire c k period).run w =
      .ok () (if period r = 0 then w.setWatcher c k false else w) := by
  unfold expire
  rw [bind_ok (conn_run hr)]
  split <;> rfl

theorem sim_upstreamTimeoutCb (hI : Inv ⟨w, .idle, false, fs, is⟩)
    (hr : w.conns.get c = some r) (hon : w.loop c .upcETimer = true) :
    Sim (some c) ⟨w, .idle, false, fs, is⟩ (do
      expire c .upcETimer XtpConn.upcTimerRepeat
      xUpstreamTimeoutCb c) fun _ t => Returned is t := by
  have hopen := (hI.records.phase c r hr).upcETimer hon
  have hclose : r.upcStatus ≠ .close := by
    intro h
    simp [XtpConn.isOpen, h] at hopen
  obtain ⟨w',hw',hget,hpath⟩ : ∃ w', (if r.upcTimerRepeat = 0 then w.setWatcher c .upcETimer false
      else w) = w' ∧ w'.conns.get c = some r ∧
      Acts (some c) ⟨w, .idle, false, fs, is⟩ ⟨w', .idle, false, fs, is⟩ := by
    by_cases h : r.upcTimerRepeat = 0
    · exact ⟨_, if_pos h, hr, .single (.stopUpcTimer c)⟩
    · exact ⟨w, if_neg h, hr, .refl⟩
  refine sim_step (t := ⟨w', .idle, false, fs, is⟩) hpath (hw' ▸ expire_run hr ..) ?_
  have hI' := path_inv hpath hI
  unfold xUpstreamTimeoutCb
  refine .step (conn_run hget) ?_
  simp only [if_pos hclose]
  refine .step (setConn_run hget _) ?_
  have hfinal := sim_final_marked .timeout hI' hget hopen (Or.inl rfl) (by decide) (by decide)
  have hres := hfinal.result
  cases hrun : (xUpstreamFinal c).run (w'.putConn c { r with upcStatus := .timeout }) with
  | error e w'' =>
    rw [hrun] at hres
    constructor
    rw [bind_error hrun]
    exact hres
  | ok a w'' =>
    rw [hrun] at hres
    obtain ⟨⟨w3,b3,d3,fs3,is3⟩,hpath',rfl,hdone⟩ := hres
    refine .step hrun ?_
    obtain rfl : b3 = .idle := hdone.busy
    obtain rfl : d3 = false := hdone.due
    obtain rfl : is3 = is := hdone.incidents
    constructor
    exact ⟨⟨w3.setWatcher c .upcETimer false, .idle, false, fs3, is3⟩,
      hpath'.tail (.stopUpcTimer c), rfl, Or.inl rfl, rfl, rfl⟩

end TcpFunnel.UpstreamSimulation
