import TcpFunnel.PipeSimulation

/-!
# The scheduler and the closing of an upstream

The two call each other. An activation of the scheduler promotes the client
at the head of the queue, gives up, or fails in `connect`, and then closes
what it opened and runs once more.
-/

set_option autoImplicit false

namespace TcpFunnel.SchedulerSimulation
open TcpFunnel.BufferPool TcpFunnel.Connection TcpFunnel.SystemCalls TcpFunnel.TransferLoops
open TcpFunnel.Upstream TcpFunnel.Simulation TcpFunnel.Actions TcpFunnel.Invariants
open TcpFunnel.QueueInvariant TcpFunnel.RecordInvariant TcpFunnel.StageInvariant
open TcpFunnel.TransferRuns TcpFunnel.PipeSimulation

section runs

variable {w : World} {c : ConnId} {r : XtpConn}

theorem peer_run {i : ℕ} (hi : i < w.ln.srvcf.upstream.length) :
    ∃ p, (peer (some i)).run w = .ok p w := by
  refine ⟨w.ln.srvcf.upstream[i], ?_⟩
  unfold peer
  simp only [EStateM.run_bind, EStateM.run_get, List.getElem?_eq_getElem hi]
  rfl

theorem choosePeer_empty (h : w.ln.srvcf.upstream = []) :
    xUpstreamChoosePeer.run w = .error .divisionByZero w := by
  unfold xUpstreamChoosePeer
  simp only [EStateM.run_bind, EStateM.run_get, h, List.length_nil, if_true]
  rfl

theorem choosePeer_run (h : w.ln.srvcf.upstream ≠ []) :
    ∃ i, Chosen w i ∧ xUpstreamChoosePeer.run w = .ok i (chosen w i) := by
  have hpos : 0 < w.ln.srvcf.upstream.length := List.length_pos_iff.mpr h
  have hlt := Nat.mod_lt w.ln.srvcf.upstreamIndex hpos
  obtain ⟨p,hp⟩ := peer_run (show _ < (chosen w _).ln.srvcf.upstream.length from hlt)
  refine ⟨_, ⟨hlt, rfl⟩, ?_⟩
  unfold xUpstreamChoosePeer
  refine (bind_ok rfl).trans ?_
  simp only [if_neg (Nat.pos_iff_ne_zero.mp hpos)]
  exact (bind_ok rfl).trans (bind_ok hp)

theorem socket_run :
    (∃ w', (socket c).run w = .error .pending w' ∧ w'.io = w.io ∧ w'.log = w.log) ∨
    (∃ rest, w.sys.sockets = none::rest ∧
      (socket c).run w = .ok (-1) (w.setSys { w.sys with sockets := rest })) ∨
    (∃ fd rest, w.sys.sockets = some fd::rest ∧ Fresh w fd ∧ (socket c).run w =
      .ok fd ((w.setSys { w.sys with sockets := rest }).openFd fd ⟨c, .upstream⟩)) := by
  unfold socket
  rw [EStateM.run_bind]
  cases hs : w.sys.sockets with
  | nil =>
    rw [show nextSocket.run w = .error .pending w from answer_none hs]
    exact Or.inl ⟨w, rfl, rfl, rfl⟩
  | cons a rest =>
    rw [show nextSocket.run w = .ok a (w.setSys { w.sys with sockets := rest }) from answer_some hs]
    cases a with
    | none => exact Or.inr (Or.inl ⟨rest, rfl, rfl⟩)
    | some fd =>
      simp only [EStateM.run_bind, EStateM.run_get]
      by_cases hf : Fresh w fd
      · have hf' : Fresh (w.setSys { w.sys with sockets := rest }) fd := hf
        rw [if_neg (not_not.mpr hf')]
        exact Or.inr (Or.inr ⟨fd, rest, rfl, hf, rfl⟩)
      · have hf' : ¬ Fresh (w.setSys { w.sys with sockets := rest }) fd := hf
        rw [if_pos hf']
        exact Or.inl ⟨_, rfl, rfl, rfl⟩

theorem xSetNonBlock_run :
    (∃ w', xSetNonBlock.run w = .error .pending w' ∧ w'.io = w.io ∧ w'.log = w.log) ∨
    (∃ rc rest, rest <:+ w.sys.fcntls ∧ (rc = 0 ∨ rc = -1 ∧ false ∈ w.sys.fcntls) ∧
      xSetNonBlock.run w = .ok rc (w.setSys { w.sys with fcntls := rest })) := by
  unfold xSetNonBlock
  cases h1 : w.sys.fcntls with
  | nil => exact Or.inl ⟨w, bind_error (answer_none h1), rfl, rfl⟩
  | cons a rest =>
    have hrun : nextFcntl.run w = .ok a (w.setSys { w.sys with fcntls := rest }) := answer_some h1
    cases a with
    | false =>
      refine Or.inr ⟨-1, rest, ⟨[false], rfl⟩, Or.inr ⟨rfl, by simp⟩, (bind_ok hrun).trans rfl⟩
    | true =>
      cases rest with
      | nil =>
        have hsecond : nextFcntl.run (w.setSys { w.sys with fcntls := [] }) = .error .pending _ :=
          answer_none rfl
        exact Or.inl ⟨_, (bind_ok hrun).trans (bind_error hsecond), rfl, rfl⟩
      | cons a rest =>
        have hsecond : nextFcntl.run (w.setSys { w.sys with fcntls := a::rest }) =
            .ok a (w.setSys { w.sys with fcntls := rest }) := answer_some rfl
        have hboth := fun g : Bool → Callback ℤ => (bind_ok (f := g) hsecond)
        cases a with
        | false =>
          refine Or.inr ⟨-1, rest, ⟨[true, false], rfl⟩, Or.inr ⟨rfl, by simp⟩, ?_⟩
          exact (bind_ok hrun).trans ((bind_ok hsecond).trans rfl)
        | true =>
          refine Or.inr ⟨0, rest, ⟨[true, true], rfl⟩, Or.inl rfl, ?_⟩
          exact (bind_ok hrun).trans ((bind_ok hsecond).trans rfl)

theorem connect_run :
    (∃ w', nextConnect.run w = .error .pending w' ∧ w'.io = w.io ∧ w'.log = w.log) ∨
    (∃ a rest, w.sys.connects = a::rest ∧
      nextConnect.run w = .ok a (w.setSys { w.sys with connects := rest })) := by
  cases h : w.sys.connects with
  | nil => exact Or.inl ⟨w, answer_none h, rfl, rfl⟩
  | cons a rest => exact Or.inr ⟨a, rest, rfl, answer_some h⟩

theorem evStart_run (w : World) (c : ConnId) (k : Watcher) :
    (evStart c k).run w = .ok () (w.setWatcher c k true) := rfl

theorem evStop_run (w : World) (c : ConnId) (k : Watcher) :
    (evStop c k).run w = .ok () (w.setWatcher c k false) := rfl

theorem close_run (w : World) (fd : ℤ) : (close fd).run w = .ok () (w.closeFd fd) := rfl

def watched (w : World) (c : ConnId) (r : XtpConn) (fd : ℤ) : World :=
  (((w.setWatcher c .upcERecv true).setWatcher c .upcEConnected true).setWatcher c
    .upcETimer true).putConn c
    { r with upcFd := fd, upcStatus := .connect, upcTimerRepeat := connConnectTimeout }

theorem watched_setSys (w : World) (c : ConnId) (r : XtpConn) (fd : ℤ) (t : Answers) :
    watched (w.setSys t) c r fd = (watched w c r fd).setSys t := rfl

theorem openFd_setSys (w : World) (fd : ℤ) (k : Sock) (t : Answers) :
    (w.setSys t).openFd fd k = (w.openFd fd k).setSys t := rfl

theorem setSys_setSys (w : World) (t t' : Answers) : (w.setSys t).setSys t' = w.setSys t' := rfl

theorem watched_run {α : Type} (hr : w.conns.get c = some r) (fd : ℤ) (next : Callback α) :
    (do
      setConn c fun r => { r with upcFd := fd, upcStatus := .connect }
      evStart c .upcERecv
      evStart c .upcEConnected
      setConn c fun r => { r with upcTimerRepeat := connConnectTimeout }
      evStart c .upcETimer
      next).run w = next.run (watched w c r fd) := by
  have hget : (((w.putConn c { r with upcFd := fd, upcStatus := .connect }).setWatcher c
      .upcERecv true).setWatcher c .upcEConnected true).conns.get c =
      some { r with upcFd := fd, upcStatus := .connect } := by simp
  rw [bind_ok (setConn_run hr _), bind_ok (evStart_run ..), bind_ok (evStart_run ..),
    bind_ok (setConn_run hget _), bind_ok (evStart_run ..)]
  congr 1
  simp [watched, World.putConn, World.setWatcher]

inductive NewResult (w : World) (c : ConnId) (r : XtpConn) :
    EStateM.Result Stop World ℤ → Prop
  | stopped {w'} (hio : w'.io = w.io) (hlog : w'.log = w.log) :
      NewResult w c r (.error .pending w')
  | abandoned {leaked t w'} (hfd : ∀ fd, leaked = some fd → Fresh w fd)
      (hfail : FailedWith w.sys (abandonment c leaked)) (ht : Shrinks w.sys t)
      (hw : w' = (leaked.elim w fun fd => w.openFd fd ⟨c, .upstream⟩).setSys t) :
      NewResult w c r (.ok xnetErr w')
  | opened {fd t rc w'} (hfd : Fresh w fd) (ht : Shrinks w.sys t)
      (hrc : rc = xnetOk ∨ rc = xnetErr ∧ .error ∈ w.sys.connects)
      (hw : w' = (watched (w.openFd fd ⟨c, .upstream⟩) c r fd).setSys t) :
      NewResult w c r (.ok rc w')

theorem shrinks_used (t : Answers) {sockets : List (Option ℤ)} {fcntls : List Bool}
    {connects : List ConnectAnswer} (h1 : sockets <:+ t.sockets) (h2 : fcntls <:+ t.fcntls)
    (h3 : connects <:+ t.connects) :
    Shrinks t { t with sockets := sockets, fcntls := fcntls, connects := connects } :=
  { shrinks_refl t with sockets := h1, fcntls := h2, connects := h3 }

theorem xUpstreamConnectionNew_run (hr : w.conns.get c = some r) {i : ℕ}
    (hi : i < w.ln.srvcf.upstream.length) :
    NewResult w c r ((xUpstreamConnectionNew c i).run w) := by
  unfold xUpstreamConnectionNew
  rcases socket_run (w := w) (c := c) with ⟨w',hs,hio,hlog⟩ | ⟨rest,hsys,hs⟩ | ⟨fd,rest,hsys,hfd,hs⟩
  · rw [bind_error hs]
    exact .stopped hio hlog
  · rw [bind_ok hs, if_pos rfl]
    have hsuf : rest <:+ w.sys.sockets := ⟨[none], hsys.symm⟩
    have hfail : none ∈ w.sys.sockets := hsys ▸ List.mem_cons_self ..
    exact @NewResult.abandoned w c r none _ _ (by simp) hfail
      (shrinks_used w.sys hsuf List.suffix_rfl List.suffix_rfl) rfl
  have hsuf : rest <:+ w.sys.sockets := ⟨[some fd], hsys.symm⟩
  have hne : fd ≠ -1 := by
    rintro rfl
    exact absurd hfd.1 (by decide)
  rw [bind_ok hs, if_neg hne]
  set w1 := (w.setSys { w.sys with sockets := rest }).openFd fd ⟨c, .upstream⟩ with hw1
  rcases xSetNonBlock_run (w := w1) with ⟨w',hn,hio,hlog⟩ | ⟨rc,rest',hsuf',hrc,hn⟩
  · rw [bind_error hn]
    exact .stopped (hio.trans rfl) (hlog.trans rfl)
  rw [bind_ok hn]
  rcases hrc with rfl | ⟨rfl,hfalse⟩
  · rw [if_neg (by decide)]
    set w2 := w1.setSys { w1.sys with fcntls := rest' } with hw2
    have hr2 : w2.conns.get c = some r := hr
    rw [watched_run hr2]
    obtain ⟨p,hp⟩ := peer_run (show i < (watched w2 c r fd).ln.srvcf.upstream.length from hi)
    rw [bind_ok hp]
    rcases connect_run (w := watched w2 c r fd) with ⟨w',ha,hio,hlog⟩ | ⟨a,rest'',hsys'',ha⟩
    · rw [bind_error ha]
      exact .stopped (by simpa [watched, hw2, hw1] using hio)
        (by simpa [watched, hw2, hw1] using hlog)
    rw [bind_ok ha]
    have hsuf'' : rest'' <:+ w.sys.connects := ⟨[a], hsys''.symm⟩
    have ht := shrinks_used w.sys hsuf hsuf' hsuf''
    have hw : (watched w2 c r fd).setSys { (watched w2 c r fd).sys with connects := rest'' } =
        (watched (w.openFd fd ⟨c, .upstream⟩) c r fd).setSys
          { w.sys with sockets := rest, fcntls := rest', connects := rest'' } := by
      rw [hw2, hw1, openFd_setSys, setSys_setSys, watched_setSys, setSys_setSys]
      rfl
    cases a with
    | ok => exact .opened hfd ht (Or.inl rfl) hw
    | inProgress => exact .opened hfd ht (Or.inl rfl) hw
    | error =>
      have herr : ConnectAnswer.error ∈ w.sys.connects :=
        (show w.sys.connects = _ from hsys'') ▸ List.mem_cons_self ..
      exact .opened hfd ht (Or.inr ⟨rfl, herr⟩) hw
  · rw [if_pos rfl]
    refine @NewResult.abandoned w c r (some fd) _ _ ?_ hfalse
      (shrinks_used w.sys hsuf hsuf' List.suffix_rfl) rfl
    rintro _ ⟨⟩
    exact hfd

inductive InitResult (w : World) (c : ConnId) (r : XtpConn) :
    EStateM.Result Stop World ℤ → Prop
  | stopped {w'} (hio : w'.io = w.io) (hlog : w'.log = w.log) :
      InitResult w c r (.error .pending w')
  | noPeer (h : w.ln.srvcf.upstream = []) : InitResult w c r (.error .divisionByZero w)
  | abandoned {i leaked t w'} (hi : Chosen w i) (hfd : ∀ fd, leaked = some fd → Fresh w fd)
      (hfail : FailedWith w.sys (abandonment c leaked)) (ht : Shrinks w.sys t)
      (hw : w' = (abandoned w c r i leaked).setSys t) : InitResult w c r (.ok xnetErr w')
  | dialled {i fd t rc w'} (hi : Chosen w i) (hfd : Fresh w fd) (ht : Shrinks w.sys t)
      (hrc : rc = xnetOk ∨ rc = xnetErr ∧ .error ∈ w.sys.connects)
      (hw : w' = ((dialled w c i fd).putConn c (dialledConn r i fd)).setSys t) :
      InitResult w c r (.ok rc w')

theorem xUpstreamInit_run (hr : w.conns.get c = some r) :
    InitResult w c r ((xUpstreamInit c).run w) := by
  unfold xUpstreamInit
  rw [bind_ok (conn_run hr)]
  by_cases hup : w.ln.srvcf.upstream = []
  · rw [bind_error (choosePeer_empty hup)]
    exact .noPeer hup
  obtain ⟨i,hi,hchoose⟩ := choosePeer_run hup
  rw [bind_ok hchoose]
  have hnew := xUpstreamConnectionNew_run (w := chosen w i) hr hi.1
  cases hrun : (xUpstreamConnectionNew c i).run (chosen w i) with
  | error e w' =>
    rw [hrun] at hnew
    obtain ⟨hio,hlog⟩ | _ | _ := hnew
    rw [bind_error hrun]
    exact .stopped hio hlog
  | ok rc w' =>
    rw [hrun] at hnew
    rw [bind_ok hrun]
    cases hnew with
    | @abandoned leaked t _ hfd hfail ht hw =>
      have hr' : w'.conns.get c = some r := by
        rw [hw]
        cases leaked <;> exact hr
      rw [bind_ok (setConn_run hr' _)]
      refine .abandoned hi hfd hfail ht ?_
      rw [hw]
      cases leaked <;> rfl
    | @opened fd t _ _ hfd ht hrc hw =>
      have hr' : w'.conns.get c = some
          { r with upcFd := fd, upcStatus := .connect, upcTimerRepeat := connConnectTimeout } := by
        rw [hw]
        simp [watched]
      rw [bind_ok (setConn_run hr' _)]
      refine .dialled hi hfd ht hrc ?_
      rw [hw]
      simp [watched, dialled, dialledConn, World.putConn, World.setWatcher, World.setSys]

theorem mem_neighbours {q : List ConnId} {c d : ConnId} (h : d ∈ neighbours q c) : d ∈ q := by
  rcases List.mem_append.mp h with h | h
  · exact List.takeWhile_subset _ (List.mem_of_mem_getLast? (Option.mem_toList.mp h))
  · exact List.dropWhile_subset _
      (List.mem_of_mem_drop (List.mem_of_mem_head? (Option.mem_toList.mp h)))

theorem touch_run (cs : List ConnId) (w : World) :
    (touch cs).run w = .ok () w ∧ (∀ d ∈ cs, w.conns.get d ≠ none) ∨
    (touch cs).run w = .error .useAfterFree w ∧ ∃ d ∈ cs, w.conns.get d = none := by
  induction cs with
  | nil => exact Or.inl ⟨rfl, fun _ h => absurd h List.not_mem_nil⟩
  | cons d ds ih =>
    unfold touch
    cases hd : w.conns.get d with
    | none =>
      exact Or.inr ⟨bind_error (conn_none hd), d, List.mem_cons_self .., hd⟩
    | some r =>
      rw [bind_ok (conn_run hd)]
      refine ih.imp (fun h => ⟨h.1, fun e he => ?_⟩) fun h => ⟨h.1, ?_⟩
      · rcases List.mem_cons.mp he with rfl | he
        · simp [hd]
        · exact h.2 e he
      · obtain ⟨e,he,hn⟩ := h.2
        exact ⟨e, List.mem_cons_of_mem d he, hn⟩

theorem tailqRemove_run (hc : c ∈ w.ln.cqWaiting) (hr : w.conns.get c = some r) :
    (tailqRemove c).run w =
      .ok () (w.setLn fun ln => { ln with cqWaiting := w.ln.cqWaiting.erase c }) ∧
      (∀ d ∈ neighbours w.ln.cqWaiting c, w.conns.get d ≠ none) ∨
    (tailqRemove c).run w = .error .useAfterFree w ∧
      ∃ d ∈ neighbours w.ln.cqWaiting c, d ≠ c ∧ w.conns.get d = none := by
  unfold tailqRemove
  rw [bind_ok (show (get : Callback World).run w = .ok w w from rfl)]
  simp only [hc, not_true_eq_false, if_false]
  rcases touch_run (c::neighbours w.ln.cqWaiting c) w with ⟨h,hlive⟩ | ⟨h,d,hd,hn⟩
  · exact Or.inl ⟨bind_ok h, fun d hd => hlive d (List.mem_cons_of_mem c hd)⟩
  · have hne : d ≠ c := by
      rintro rfl
      rw [hr] at hn
      cases hn
    exact Or.inr ⟨bind_error h, d, (List.mem_cons.mp hd).resolve_left hne, hne, hn⟩

theorem tailqInsertTail_run (hr : w.conns.get c = some r) :
    (tailqInsertTail c).run w =
      .ok () (w.setLn fun ln => { ln with cqWaiting := w.ln.cqWaiting ++ [c] }) ∨
    (tailqInsertTail c).run w = .error .useAfterFree w ∧
      ∃ d ∈ w.ln.cqWaiting, w.conns.get d = none := by
  unfold tailqInsertTail
  rw [bind_ok (show (get : Callback World).run w = .ok w w from rfl)]
  rcases touch_run (c::w.ln.cqWaiting.getLast?.toList) w with ⟨h,-⟩ | ⟨h,d,hd,hn⟩
  · exact Or.inl (bind_ok h)
  · refine Or.inr ⟨bind_error h, d, ?_, hn⟩
    rcases List.mem_cons.mp hd with rfl | hd
    · rw [hr] at hn
      cases hn
    · exact List.mem_of_mem_getLast? (Option.mem_toList.mp hd)

theorem closedUpstream_written (w : World) (c : ConnId) (r r' : XtpConn) (t : Answers) :
    closedUpstream ((w.putConn c r').setSys t) c r = (closedUpstream w c r).setSys t := by
  simp only [closedUpstream]
  split <;> simp [World.putConn, World.setSys, World.setWatcher, World.closeFd, World.setLn,
    World.note]

theorem final_run (hr : w.conns.get c = some r) (hnone : r.upcStatus ≠ .none)
    (hclose : r.upcStatus ≠ .close) (handle : Callback ℤ) :
    (xUpstreamFinalWith handle c).run w =
      (handle >>= fun _ => pure ()).run (closedUpstream w c r) := by
  unfold xUpstreamFinalWith
  rw [bind_ok (conn_run hr)]
  simp only [if_neg hnone, if_pos hclose]
  have hget : (((((w.setWatcher c .upcERecv false).setWatcher c .upcESend false).setWatcher c
      .upcEConnected false).setWatcher c .upcETimer false).closeFd r.upcFd).conns.get c =
      some r := hr
  rw [bind_ok (evStop_run ..), bind_ok (evStop_run ..), bind_ok (evStop_run ..),
    bind_ok (evStop_run ..), bind_ok (close_run ..), bind_ok (setConn_run hget _)]
  by_cases hs : r.status = .close
  · simp only [hs, ne_eq, not_true_eq_false, if_false, closedUpstream]
    exact bind_ok rfl
  · simp only [hs, ne_eq, not_false_eq_true, if_true, closedUpstream]
    exact (bind_ok rfl).trans (bind_ok rfl)

theorem final_closed (hr : w.conns.get c = some r)
    (hup : r.upcStatus = .none ∨ r.upcStatus = .close) (handle : Callback ℤ) :
    (xUpstreamFinalWith handle c).run w = .ok () w := by
  unfold xUpstreamFinalWith
  rw [bind_ok (conn_run hr)]
  rcases hup with h | h
  · rw [if_pos h]
    rfl
  · simp only [h]
    rfl

end runs

/-- A scheduler that has returned has touched queued clients only. -/
structure HandleDone (s t : Stage) : Prop where
  busy : t.busy = s.busy
  due : t.due = false
  incidents : t.incidents = s.incidents
  io : t.w.io = s.w.io
  others : ∀ d, d ∉ s.w.ln.cqWaiting →
    t.w.conns.get d = s.w.conns.get d ∧ t.w.loop d = s.w.loop d
  queue : ∀ d ∈ t.w.ln.cqWaiting, d ∈ s.w.ln.cqWaiting

section scheduling

variable {o : Option ConnId} {w : World} {b : Busy} {fs : List Failure} {is : List Incident}
variable {c : ConnId}
variable {r : XtpConn} {i : ℕ} {fd : ℤ} {t : Answers}

def promotion (c : ConnId) (next : Callback ℤ) : Callback ℤ := do
  tailqRemove c
  modify (·.setLn fun ln => { ln with cqWaitingNum := ln.cqWaitingNum-1 })
  setConn c fun r => { r with status := .working }
  modify fun w => (w.setLn fun ln => { ln with workingNum := ln.workingNum+1 }).note (.promoted c)
  next

theorem promotion_run (hs : Scheduled w c) (next : Callback ℤ) :
    let w1 := ((dialled w c i fd).putConn c (dialledConn r i fd)).setSys t
    (promotion c next).run w1 = next.run ((promoted w c r i fd).setSys t) ∧
      (∀ d ∈ neighbours w.ln.cqWaiting c, d ≠ c → w.conns.get d ≠ none) ∨
    (promotion c next).run w1 = .error .useAfterFree w1 ∧
      ∃ d ∈ neighbours w.ln.cqWaiting c, d ≠ c ∧ w.conns.get d = none := by
  intro w1
  have hget : w1.conns.get c = some (dialledConn r i fd) := by simp [w1]
  have hmem : c ∈ w1.ln.cqWaiting := scheduled_mem hs
  unfold promotion
  rcases tailqRemove_run hmem hget with ⟨h,hlive⟩ | ⟨h,d,hd,hne,hn⟩
  · left
    have hlive' : ∀ d ∈ neighbours w.ln.cqWaiting c, d ≠ c → w.conns.get d ≠ none := by
      intro d hd hne
      simpa [w1, hne] using hlive d hd
    refine ⟨?_, hlive'⟩
    have hget' : (((w1.setLn fun ln => { ln with cqWaiting := w1.ln.cqWaiting.erase c }).setLn
        fun ln => { ln with cqWaitingNum := ln.cqWaitingNum-1 })).conns.get c =
        some (dialledConn r i fd) := hget
    rw [bind_ok h, bind_ok (modify_run ..), bind_ok (setConn_run hget' _),
      bind_ok (modify_run ..)]
    congr 1
    simp [w1, promoted, World.putConn, World.setLn, World.setSys, World.note]
  · exact Or.inr ⟨bind_error h, d, hd, hne, by simpa [w1, hne] using hn⟩

theorem closed_upcStatus {busy : Busy} {peers : ℕ} {on : Watcher → Bool}
    (h : Phase busy peers c r on) (ho : r.isOpen = false) :
    r.upcStatus = .none ∨ r.upcStatus = .close := by
  have hno : r.upcStatus ≠ .connect ∧ r.upcStatus ≠ .working := by
    simpa [XtpConn.isOpen] using ho
  rcases h.upcStatus with h | h | h | h
  · exact Or.inl h
  · exact absurd h hno.1
  · exact absurd h hno.2
  · exact Or.inr h

theorem sim_abandoned {leaked : Option ℤ} (hI : Inv ⟨w, b, true, fs, is⟩) (hs : Scheduled w c)
    (hr : w.conns.get c = some r) (hi : Chosen w i)
    (hfd : ∀ fd, leaked = some fd → Fresh w fd)
    (hfail : FailedWith w.sys (abandonment c leaked)) (ht : Shrinks w.sys t)
    (handle : Callback ℤ) :
    SimulatedAt (Act o) Stage.w Cut ⟨w, b, true, fs, is⟩ ((abandoned w c r i leaked).setSys t)
      (do xUpstreamFinalWith handle c; pure xnetErr)
      fun _ u => HandleDone ⟨w, b, true, fs, is⟩ u := by
  have hpath : Acts o ⟨w, b, true, fs, is⟩
      ⟨(abandoned w c r i leaked).setSys t, b, false, fs ++ [abandonment c leaked], is⟩ :=
    (Relation.ReflTransGen.single (.noSocket leaked hs hi hr hfd hfail)).tail
      (.answers t (by simpa using ht))
  have hget : ((abandoned w c r i leaked).setSys t).conns.get c =
      some { r with upcf := some i } := by simp
  have hclosed := (scheduled_waiting hI.queue rfl hs hr).2
  have hup := closed_upcStatus (hI.records.phase c r hr) hclosed
  refine .step (final_closed hget hup _) (.moved hpath rfl (Simulated.pure ?_))
  refine ⟨rfl, rfl, rfl, by simp, fun d hd => ?_, by simp⟩
  have hne : d ≠ c := by rintro rfl; exact hd (scheduled_mem hs)
  simp [hne]

theorem sim_promotion (hb : b ≠ .over) (hs : Scheduled w c) (hr : w.conns.get c = some r)
    (hi : Chosen w i)
    (hfd : Fresh w fd) (ht : Shrinks w.sys t) :
    SimulatedAt (Act o) Stage.w Cut ⟨w, b, true, fs, is⟩
      (((dialled w c i fd).putConn c (dialledConn r i fd)).setSys t)
      (promotion c (pure xnetOk)) fun _ u => HandleDone ⟨w, b, true, fs, is⟩ u := by
  rcases promotion_run hs (pure xnetOk) with ⟨h,-⟩ | ⟨h,d,hd,-,hn⟩
  · have hpath : Acts o ⟨w, b, true, fs, is⟩
        ⟨(promoted w c r i fd).setSys t, b, false, fs, is⟩ :=
      (Relation.ReflTransGen.single (.promote hs hi hr hfd)).tail (.answers t (by simpa using ht))
    refine .congr h (.moved hpath rfl (Simulated.pure ?_))
    refine ⟨rfl, rfl, rfl, by simp, fun d hd => ?_, fun d hd => ?_⟩
    · have hne : d ≠ c := by rintro rfl; exact hd (scheduled_mem hs)
      simp [hne, dialled_other w c i fd hne]
    · exact List.mem_of_mem_erase (by simpa using hd)
  · constructor
    rw [h]
    exact ⟨_, .refl, by simp, by simp, Or.inr (Or.inl ⟨rfl, hb, d, mem_neighbours hd, hn⟩)⟩

/-- `connect` failed: what was opened is closed, and `handle` runs again. -/
theorem sim_refused (hI : Inv ⟨w, b, true, fs, is⟩) (hs : Scheduled w c)
    (hr : w.conns.get c = some r) (hi : Chosen w i) (hfd : Fresh w fd) (ht : Shrinks w.sys t)
    (herr : .error ∈ w.sys.connects) {handle : Callback ℤ}
    (ih : ∀ {w' fs'}, Inv ⟨w', b, true, fs', is⟩ → Sim o ⟨w', b, true, fs', is⟩ handle
      fun _ u => HandleDone ⟨w', b, true, fs', is⟩ u) :
    SimulatedAt (Act o) Stage.w Cut ⟨w, b, true, fs, is⟩
      (((dialled w c i fd).putConn c (dialledConn r i fd)).setSys t)
      (do xUpstreamFinalWith handle c; pure xnetErr)
      fun _ u => HandleDone ⟨w, b, true, fs, is⟩ u := by
  have hpath : Acts o ⟨w, b, true, fs, is⟩
      ⟨(closedUpstream (dialled w c i fd) c (dialledConn r i fd)).setSys t, b, true,
        fs ++ [.refused c], is⟩ :=
    (Relation.ReflTransGen.single (.refuse hs hi hr hfd herr)).tail (.answers t (by simpa using ht))
  have hget : (((dialled w c i fd).putConn c (dialledConn r i fd)).setSys t).conns.get c =
      some (dialledConn r i fd) := by simp
  have hrun := final_run hget (by simp [dialledConn]) (by simp [dialledConn]) handle
  rw [closedUpstream_written] at hrun
  refine .congr (y := (handle >>= fun _ => pure ()) >>= fun _ => pure xnetErr) ?_
    (.moved hpath rfl ?_)
  · rw [EStateM.run_bind, hrun, ← EStateM.run_bind]
  · have hagain : Sim o _ (handle >>= fun _ => pure ()) fun _ u => HandleDone _ u :=
      Simulated.bind (ih (path_inv hpath hI)) fun _ u _ hu => Simulated.pure hu
    refine Simulated.bind hagain fun _ u _ hu => Simulated.pure ?_
    refine ⟨hu.busy, hu.due, hu.incidents, hu.io.trans (by simp), fun d hd => ?_, fun d hd => ?_⟩
    · have hne : d ≠ c := by rintro rfl; exact hd (scheduled_mem hs)
      obtain ⟨h1,h2⟩ := hu.others d (by simpa using hd)
      constructor
      · rw [h1]
        simp [hne]
      · rw [h2, (World.setSys_frame ..).2.2.2.1, closedUpstream_other _ _ _ hne,
          dialled_other w c i fd hne]
    · simpa using hu.queue d hd

/-- The scheduler, by the number of activations left. -/
theorem sim_handleAt (depth : ℕ) {w : World} {fs : List Failure}
    (hb : b ≠ .over) (hI : Inv ⟨w, b, true, fs, is⟩) :
    Sim o ⟨w, b, true, fs, is⟩ (xUpstreamHandleAt depth)
      fun _ u => HandleDone ⟨w, b, true, fs, is⟩ u := by
  induction depth generalizing w fs with
  | zero => exact sim_pending rfl .refl rfl rfl
  | succ depth ih =>
    unfold xUpstreamHandleAt
    refine .step (get_run w) ?_
    have hpass : (w.ln.cqWaiting = [] ∨ w.ln.srvcf.workingNumMax ≤ w.ln.workingNum) →
        ∀ rc : ℤ, Sim o ⟨w, b, true, fs, is⟩ (pure rc : Callback ℤ)
          fun _ u => HandleDone ⟨w, b, true, fs, is⟩ u := fun h rc =>
      .moved (.single (.pass h)) rfl
        (Simulated.pure ⟨rfl, rfl, rfl, rfl, fun _ _ => ⟨rfl, rfl⟩, fun _ h => h⟩)
    cases hq : w.ln.cqWaiting with
    | nil =>
      simp only [hq]
      exact hpass (Or.inl hq) xnetOk
    | cons c rest =>
      simp only [hq]
      by_cases hmax : w.ln.workingNum ≥ w.ln.srvcf.workingNumMax
      · rw [if_pos hmax]
        exact hpass (Or.inr hmax) xnetBusy
      rw [if_neg hmax]
      have hs : Scheduled w c := ⟨by rw [hq]; rfl, Int.not_le.mp hmax⟩
      cases hr : w.conns.get c with
      | none =>
        have hrun : (xUpstreamInit c).run w = .error .useAfterFree w := by
          unfold xUpstreamInit
          exact bind_error (conn_none hr)
        exact Simulated.error (bind_error hrun) .refl
          ⟨rfl, rfl, Or.inr (Or.inl ⟨rfl, hb, c, scheduled_mem hs, hr⟩)⟩
      | some r =>
        have hinit := xUpstreamInit_run hr
        cases hrun : (xUpstreamInit c).run w with
        | error e w' =>
          rw [hrun] at hinit
          obtain ⟨hio,hlog⟩ | hup | _ | _ := hinit
          · exact Simulated.error (bind_error hrun) .refl ⟨hio, hlog, Or.inl rfl⟩
          · exact Simulated.error (bind_error hrun) .refl ⟨rfl, rfl, Or.inr (Or.inr ⟨rfl, hup⟩)⟩
        | ok rc w' =>
          rw [hrun] at hinit
          refine .step hrun ?_
          cases hinit with
          | abandoned hi hfd hfail ht hw =>
            rw [hw, if_neg (by decide)]
            exact sim_abandoned hI hs hr hi hfd hfail ht _
          | dialled hi hfd ht hrc hw =>
            rcases hrc with rfl | ⟨rfl,herr⟩
            · rw [hw, if_pos rfl]
              exact sim_promotion hb hs hr hi hfd ht
            · rw [hw, if_neg (by decide)]
              exact sim_refused hI hs hr hi hfd ht herr ih

theorem sim_handle (hb : b ≠ .over) (hI : Inv ⟨w, b, true, fs, is⟩) :
    Sim o ⟨w, b, true, fs, is⟩ xUpstreamHandle fun _ u => HandleDone ⟨w, b, true, fs, is⟩ u :=
  .step (get_run w) (sim_handleAt _ hb hI)

end scheduling

end TcpFunnel.SchedulerSimulation
