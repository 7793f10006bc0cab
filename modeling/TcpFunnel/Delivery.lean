import TcpFunnel.ExchangeRefinement
import TcpFunnel.TransferResults
import TcpFunnel.WatcherInvariant
import TcpFunnel.ClosingSimulation
import TcpFunnel.PipeAccounts

/-!
# Delivery

What a pipe holds can be delivered: when the kernel accepts what it is
offered, one run of the sending callback empties the pipe, buffer by buffer,
and then stops its watcher, or closes a client whose upstream is closed.
-/

set_option autoImplicit false

namespace TcpFunnel.Delivery
open TcpFunnel.BufferPool TcpFunnel.Connection TcpFunnel.SystemCalls TcpFunnel.TransferLoops
open TcpFunnel.Upstream TcpFunnel.Access TcpFunnel.EventLoop TcpFunnel.Reachability
open TcpFunnel.Actions TcpFunnel.Invariants TcpFunnel.RecordInvariant TcpFunnel.BufferInvariant
open TcpFunnel.StageInvariant TcpFunnel.TransferRuns TcpFunnel.PipeSimulation
open TcpFunnel.SchedulerSimulation TcpFunnel.ClosingSimulation TcpFunnel.UpstreamSimulation
open TcpFunnel.AccessSimulation TcpFunnel.StepSimulation TcpFunnel.PipeFlow TcpFunnel.Pump
open TcpFunnel.TransferResults TcpFunnel.ExchangeRefinement TcpFunnel.PipeAccounts TcpFunnel.Runs

variable {w w' : World} {c : ConnId} {p : Pipe} {r : XtpConn} {b : BufId} {rb : XtpBuf}
variable {fd : ℤ} {S : List SendAnswer} {bs : List BufId}

def outFd (r : XtpConn) : Pipe → ℤ
  | .pipe1 => r.upcFd
  | .pipe2 => r.fd

def counts (rb : XtpBuf) : List ℕ := if rb.pos = rb.last then [] else [rb.last-rb.pos]

def accepts (rb : XtpBuf) : List SendAnswer := (counts rb).map .sent

def answers (h : Heap) (bs : List BufId) : List SendAnswer :=
  bs.flatMap fun b => ((h.bufs.get b).map accepts).getD []

theorem counts_sum (rb : XtpBuf) : (counts rb).sum = rb.last-rb.pos := by
  unfold counts
  split
  · simp only [List.sum_nil]
    omega
  · simp

theorem answers_cons (hrb : w.heap.bufs.get b = some rb) :
    answers w.heap (b::bs) = accepts rb ++ answers w.heap bs := by
  simp [answers, hrb]

theorem withSends_inv (hI : Inv (rest w)) : Inv (rest (withSends w S)) :=
  supply_inv { event := .accept, sys := { w.sys with sends := S }, mallocs := w.heap.mallocs } hI

theorem drained_nil (hrb : w.heap.bufs.get b = some rb) : drained w c p b rb [] = w := by
  simp [drained, sends, setBlock, Store.set_self hrb]

section buffers

variable (hI : Inv (rest w)) (hr : w.conns.get c = some r)
  (hb : (r.pipe p).head? = some b) (hrb : w.heap.bufs.get b = some rb)
include hI hr hb hrb

theorem sendBuf_all (hfd : w.fds fd = some ⟨c, target p⟩) :
    (sendBuf fd b ((accepts rb ++ S).length+1)).run (withSends w (accepts rb ++ S)) =
      .ok .done (withSends (drained w c p b rb (counts rb)) S) := by
  obtain ⟨hle,hsmall⟩ := head_window hI hr hb hrb
  have hget : (withSends w (accepts rb ++ S)).heap.bufs.get b = some rb := hrb
  unfold sendBuf
  rw [bind_ok (by rw [onHeap_run, buf_run hget])]
  by_cases hempty : rb.pos = rb.last
  · have hcounts : counts rb = [] := if_pos hempty
    rw [if_pos hempty, hcounts, drained_nil hrb]
    simp only [accepts, hcounts]
    rfl
  · have hcounts : counts rb = [rb.last-rb.pos] := if_neg hempty
    have haccepts : accepts rb = [.sent (rb.last-rb.pos)] := by rw [accepts, hcounts]; rfl
    have hpos : 0 < rb.last-rb.pos := by omega
    have hpumped : Pumped (rb.last-rb.pos) ([.sent (rb.last-rb.pos)].map sendReply) .count :=
      @Pumped.moved 0 _ [] .count hpos .done
    have hsend := @xSendn_run_pumped w fd b rb rb.pos (rb.last-rb.pos) _ S _ (by omega) hrb hpumped
      fun _ _ => by simp [hfd]
    have hsent : afterSend w fd rb rb.pos [.sent (rb.last-rb.pos)] =
        delivered w c p rb [rb.last-rb.pos] := by
      simp [afterSend, sendChunks, history, hfd, delivered, sends]
    rw [if_neg hempty, haccepts]
    refine (bind_ok hsend).trans ?_
    rw [hsent]
    have hcount : returned (total ([SendAnswer.sent (rb.last-rb.pos)].map sendReply)) .count =
        ((rb.last-rb.pos : ℕ) : ℤ) := by simp [returned, sendReply, Reply.amount]
    rw [hcount, if_neg (by omega), if_neg (by omega)]
    have hget' : (withSends (delivered w c p rb [rb.last-rb.pos]) S).heap.bufs.get b =
        some rb := hrb
    refine (bind_ok (setBuf_run hget' _)).trans ?_
    have hworld : (withSends (delivered w c p rb [rb.last-rb.pos]) S).setHeap
        (setBlock (withSends (delivered w c p rb [rb.last-rb.pos]) S).heap b
          { rb with pos := rb.pos+((rb.last-rb.pos : ℕ) : ℤ).toNat }) =
        withSends (drained w c p b rb [rb.last-rb.pos]) S := by
      simp [drained, delivered, withSends, setBlock, World.setHeap, World.setSys]
    have hdone : (drained w c p b rb [rb.last-rb.pos]).heap.bufs.get b =
        some { rb with pos := rb.pos+(rb.last-rb.pos) } := by simp [drained, setBlock]
    have hdone' : (withSends (drained w c p b rb [rb.last-rb.pos]) S).heap.bufs.get b =
        some { rb with pos := rb.pos+(rb.last-rb.pos) } := hdone
    have hturns : ([SendAnswer.sent (rb.last-rb.pos)] ++ S).length = S.length+1 := rfl
    rw [hworld, hturns, sendBuf, bind_ok (by rw [onHeap_run, buf_run hdone'])]
    rw [if_pos (show rb.pos+(rb.last-rb.pos) = rb.last by omega), hcounts]
    rfl

theorem last_alone (hnot : rb.last ≠ rb.endPos) : (r.pipe p).tail = [] := by
  cases htail : (r.pipe p).tail with
  | nil => rfl
  | cons a rest =>
    have hpipe := pipe_cons (s := TcpFunnel.StageInvariant.rest w) hr hb
    have hfront := (hI.buffers.shape c p).front b (by rw [hpipe, htail]; simp) rb hrb
    exact absurd hfront hnot

end buffers

theorem peek_run (hrb : w.heap.bufs.get b = some rb) : (onHeap (buf b)).run w = .ok rb w := by
  rw [onHeap_run, buf_run hrb]
  rfl

structure Sender (c : ConnId) (p : Pipe) (sendAt : ℕ → Callback Unit) (finish : Callback Unit) :
    Prop where
  empty : ∀ {w r n}, w.conns.get c = some r → r.pipe p = [] →
    (sendAt (n+1)).run w = finish.run w
  step : ∀ {w w' r b rb n}, w.conns.get c = some r → (r.pipe p).head? = some b →
    (sendBuf (outFd r p) b (w.sys.sends.length+1)).run w = .ok .done w' →
    w'.heap.bufs.get b = some rb → (sendAt (n+1)).run w =
      if rb.pos = rb.endPos then (unlinkHead c p b >>= fun _ => sendAt n).run w'
      else finish.run w'

theorem client_sender : Sender c .pipe2 (xSendCbAt c) (xSendCbEnd c) where
  empty := by
    intro w r n hr hp
    rw [xSendCbAt, bind_ok (conn_run hr), show r.pipe2 = [] from hp]
  step := by
    intro w w' r b rb n hr hb hrun hrb
    obtain ⟨bs,hp⟩ := List.head?_eq_some_iff.mp hb
    rw [xSendCbAt, bind_ok (conn_run hr), show r.pipe2 = b::bs from hp, bind_ok (get_run w)]
    refine (bind_ok hrun).trans ?_
    rw [bind_ok (peek_run hrb)]
    split <;> rfl

theorem upstream_sender : Sender c .pipe1 (xUpstreamSendCbAt c) (evStop c .upcESend) where
  empty := by
    intro w r n hr hp
    rw [xUpstreamSendCbAt, bind_ok (conn_run hr), show r.pipe1 = [] from hp]
  step := by
    intro w w' r b rb n hr hb hrun hrb
    obtain ⟨bs,hp⟩ := List.head?_eq_some_iff.mp hb
    rw [xUpstreamSendCbAt, bind_ok (conn_run hr), show r.pipe1 = b::bs from hp, bind_ok (get_run w)]
    refine (bind_ok hrun).trans ?_
    rw [bind_ok (peek_run hrb)]
    split <;> rfl

structure SentAll (w : World) (c : ConnId) (p : Pipe) (r : XtpConn) (w' : World) : Prop where
  path : Acts (some c) (rest w) (rest w')
  record : ∃ bs, w'.conns.get c = some (r.setPipe p bs)
  empty : unsent w' c p = []
  sent : departed w' c p = departed w c p ++ unsent w c p
  ln : w'.ln = w.ln
  loop : w'.loop = w.loop
  sys : w'.sys = w.sys
  mallocs : w'.heap.mallocs = w.heap.mallocs

theorem drained_head (hI : Inv (rest w)) (hr : w.conns.get c = some r) (hp : Writable r p)
    (hb : (r.pipe p).head? = some b) (hrb : w.heap.bufs.get b = some rb) :
    Acts (some c) (rest w) (rest (drained w c p b rb (counts rb))) ∧
    departed (drained w c p b rb (counts rb)) c p ++
        unsent (drained w c p b rb (counts rb)) c p =
      departed w c p ++ unsent w c p := by
  obtain ⟨hle,-⟩ := head_window hI hr hb hrb
  have hks : rb.pos+(counts rb).sum ≤ rb.last := by
    rw [counts_sum]
    omega
  refine ⟨.single (.drain _ hr hp hb hrb hks), ?_⟩
  have hout := (departed_sends (rest w) (drained w c p b rb (counts rb)) c p rfl).2
  have hheld := unsent_drained hI hr hb hrb hks
  rw [if_pos ⟨rfl, rfl⟩] at hout
  rw [hout, List.append_assoc]
  exact congrArg (departed w c p ++ ·) hheld.symm

theorem sends_all {sendAt : ℕ → Callback Unit} {finish : Callback Unit} {n : ℕ}
    (hS : Sender c p sendAt finish) (hI : Inv (rest w)) (hr : w.conns.get c = some r)
    (hp : Writable r p) (hfd : w.fds (outFd r p) = some ⟨c, target p⟩) (hbs : r.pipe p = bs)
    (hn : bs.length < n) (hsys : w.sys.sends = []) :
    ∃ w', (sendAt n).run (withSends w (answers w.heap bs)) = finish.run w' ∧
      SentAll w c p r w' := by
  induction bs generalizing w r n with
  | nil =>
    obtain ⟨n,rfl⟩ := Nat.exists_eq_add_one_of_ne_zero (Nat.ne_of_gt hn)
    have hheld : unsent w c p = [] := unsent_nil hr hbs
    have hsame : withSends w (answers w.heap []) = w := by
      simp only [answers, List.flatMap_nil, withSends, ← hsys]
      rfl
    refine ⟨w, ?_, .refl, ⟨r.pipe p, ?_⟩, hheld, by rw [hheld, List.append_nil], rfl, rfl, rfl, rfl⟩
    · rw [hsame]
      exact hS.empty hr hbs
    · rw [hr]
      cases p <;> rfl
  | cons b bs ih =>
    obtain ⟨n,rfl⟩ := Nat.exists_eq_add_one_of_ne_zero (Nat.ne_of_gt (Nat.zero_lt_of_lt hn))
    have hb : (r.pipe p).head? = some b := by rw [hbs]; rfl
    obtain ⟨rb,hrb,hbuf⟩ := (hI.buffers.shape c p).each b
      (mem_pipes hr (List.mem_of_mem_head? hb))
    have hrb : w.heap.bufs.get b = some rb := hrb
    obtain ⟨hle,-⟩ := head_window hI hr hb hrb
    obtain ⟨hpath,hall⟩ := drained_head hI hr hp hb hrb
    have hI1 := path_inv hpath hI
    have hsum : rb.pos+(counts rb).sum = rb.last := by
      rw [counts_sum]
      omega
    set w1 := drained w c p b rb (counts rb) with hw1
    have hr1 : w1.conns.get c = some r := hr
    have hrb1 : w1.heap.bufs.get b = some { rb with pos := rb.last } := by
      simp [hw1, drained, setBlock, hsum]
    have hget : (withSends w (accepts rb ++ answers w.heap bs)).conns.get c = some r := hr
    have hrun := hS.step (n := n) hget hb (sendBuf_all hI hr hb hrb hfd) hrb1
    rw [answers_cons hrb, hrun]
    dsimp only
    by_cases hend : rb.last = rb.endPos
    · have hpath' : Acts (some c) (rest w1) (rest (unlinked w1 c p r b)) :=
        .single (.unlink hr1 hb hrb1 (.inl ⟨rfl, hend⟩))
      have hget : (unlinked w1 c p r b).conns.get c = some (r.setPipe p bs) := by simp [hbs]
      have hsame : answers w.heap bs = answers (unlinked w1 c p r b).heap bs := by
        have hnodup := hI.buffers.nodup c p
        rw [pipe_cons (s := rest w) hr hb, hbs] at hnodup
        refine List.flatMap_congr fun a ha => ?_
        have hab : a ≠ b := fun h => (List.nodup_cons.mp hnodup).1 (h ▸ ha)
        simp [hw1, unlinked, drained, setBlock, hab]
      obtain ⟨w',hrun',hsent⟩ := ih (path_inv hpath' hI1) hget
        (by simpa using hp) (by cases p <;> exact hfd) (by simp) (Nat.lt_of_succ_lt_succ hn) hsys
      have hheld := unsent_unlinked (s := rest w1) hr1 hb c p
      have hwindow : window w1.heap b = [] := by
        rw [window_of hrb1]
        simp
      rw [if_pos ⟨rfl, rfl⟩, show (rest w1).w = w1 from rfl, hwindow, List.nil_append] at hheld
      have hio : departed (unlinked w1 c p r b) c p = departed w1 c p := by simp [departed]
      have hunlink : (unlinkHead c p b).run (withSends w1 (answers w.heap bs)) =
          .ok () (withSends (unlinked w1 c p r b) (answers w.heap bs)) :=
        unlinkHead_run (withSends_inv hI1) hr1 hb
      obtain ⟨bs',hrecord⟩ := hsent.record
      refine ⟨w', ?_, hpath.trans (hpath'.trans hsent.path), ⟨bs', ?_⟩, hsent.empty, ?_, ?_, ?_, ?_,
        ?_⟩
      · rw [if_pos hend, bind_ok hunlink, hsame]
        exact hrun'
      · rw [hrecord]
        cases p <;> rfl
      · rw [hsent.sent, hio, ← hheld, hall]
      · simp [hsent.ln, hw1]
      · simp [hsent.loop, hw1]
      · simp [hsent.sys, hw1]
      · rw [hsent.mallocs]
        rfl
    · have hbs' : bs = [] := by
        have htail := last_alone hI hr hb hrb hend
        rw [hbs] at htail
        exact htail
      have hheld : unsent w1 c p = [] := unsent_tail hI1 hr1 hb hrb1 rfl hend
      have hsame : withSends w1 (answers w.heap bs) = w1 := by
        subst hbs'
        simp only [answers, List.flatMap_nil, withSends, hw1, ← hsys]
        rfl
      refine ⟨w1, ?_, hpath, ⟨r.pipe p, ?_⟩, hheld, ?_, ?_, ?_, ?_, rfl⟩
      · rw [if_neg hend, hsame]
      · rw [hr1]
        cases p <;> rfl
      · rw [← hall, hheld, List.append_nil]
      · simp [hw1]
      · simp [hw1]
      · simp [hw1]

theorem closeSide_served (hr : w.conns.get c = some r) (hs : r.status ≠ .waiting) :
    (closeSide c r.fd).run w = .ok () (closedClient w c r) := by
  have hget : (((w.setWatcher c .eRecv false).setWatcher c .eSend false).closeFd r.fd).conns.get c =
      some r := hr
  unfold closeSide
  rw [bind_ok (evStop_run ..), bind_ok (evStop_run ..), bind_ok (close_run ..),
    bind_ok (conn_run hget), if_neg hs]
  refine (closeRest_run hget).trans ?_
  simp only [closedClient, if_neg hs]

theorem close_served (hI : Inv (rest w)) (hr : w.conns.get c = some r) (hs : r.status = .working)
    (hup : r.upcStatus = .close) : (xEventClose c).run w = .ok () (closedClient w c r) := by
  have hfinal : (xUpstreamFinal c).run w = .ok () w := final_closed hr (.inr hup) _
  rw [eventClose_run hr (by simp [hs]) (hI.records.phase c r hr).upcf, bind_ok hfinal]
  exact closeSide_served hr (by simp [hs])

theorem reachable_armed (h : Reachable proxy w) : WatcherInvariant.Armed .pipe2 (rest w) :=
  reaches_along (WatcherInvariant.Armed .pipe2) (fun _ h => WatcherInvariant.start_armed h _)
    (fun _ _ h => h) (fun _ _ hI hA ha => WatcherInvariant.act_armed ha hI _ hA)
    (fun _ _ _ _ _ _ hu hA => WatcherInvariant.rest_armed hA hu.busy fun _ hp => by cases hp) h

theorem sender_active (h : Reachable proxy w) (hr : w.conns.get c = some r) (hs : r.status ≠ .close)
    (howed : unsent w c .pipe2 ≠ [] ∨ r.upcStatus = .close) : w.loop c .eSend = true := by
  rcases reachable_armed h c r hr ⟨hs, howed.imp_right fun hup => ⟨rfl, hup⟩⟩ with
    hon | ⟨full,h⟩ | h | ⟨hp,-⟩
  · exact hon
  · cases h
  · cases h
  · cases hp

def allAccepted (h : Heap) (c : ConnId) (r : XtpConn) (p : Pipe) : Turn where
  event := .fire c (WatcherInvariant.sender p)
  sys := { sends := answers h (r.pipe p) }

/-- The turn brings all that the pipe holds to its target, which then has got
all that had come for it, unless the upstream has been closed. -/
structure Delivers (w : World) (c : ConnId) (r : XtpConn) (p : Pipe) (w' : World) : Prop where
  step : Step w (allAccepted w.heap c r p) w'
  sent : departed w' c p = departed w c p ++ unsent w c p
  empty : unsent w' c p = []
  complete : r.upcStatus ≠ .close → departed w' c p = arrived w c p

theorem delivers_of (h : Reachable proxy w) (hr : w.conns.get c = some r) (hs : r.status ≠ .close)
    (hstep : Step w (allAccepted w.heap c r p) w')
    (hsent : departed w' c p = departed w c p ++ unsent w c p) (hempty : unsent w' c p = []) :
    Delivers w c r p w' := by
  refine ⟨hstep, hsent, hempty, fun hup => ?_⟩
  rw [hsent]
  exact pipe_lossless h hr hs (fun hclose => absurd hclose hup) p

theorem sends_supplied {sendAt : ℕ → Callback Unit} {finish : Callback Unit}
    (hS : Sender c p sendAt finish) (h : Reachable proxy w) (hr : w.conns.get c = some r)
    (hp : Writable r p) (hfd : w.fds (outFd r p) = some ⟨c, target p⟩) :
    ∃ w', (sendAt ((r.pipe p).length+1)).run (supply w (allAccepted w.heap c r p)) =
      finish.run w' ∧ Inv (rest w') ∧ SentAll (supply w { event := .accept }) c p r w' := by
  have hI : Inv (rest (supply w { event := .accept })) := supply_inv _ (reaches_inv h)
  obtain ⟨w',hrun,hsent⟩ := sends_all (w := supply w { event := .accept }) hS hI hr hp hfd rfl
    (Nat.lt_succ_self _) rfl
  exact ⟨w', hrun, path_inv hsent.path hI, hsent⟩

/-- What a served client is owed can be sent to it in one turn. Then its
sender stops, or the client is closed if no more is to come. -/
theorem response_delivered (h : Reachable proxy w) (hr : w.conns.get c = some r)
    (hs : r.status = .working) (hfd : r.fd ≠ -1)
    (howed : unsent w c .pipe2 ≠ [] ∨ r.upcStatus = .close) :
    ∃ w', Delivers w c r .pipe2 w' ∧ if r.upcStatus = .close then
      ∃ r', w'.conns.get c = some r' ∧ r'.status = .close else w'.loop c .eSend = false := by
  have hne : r.status ≠ .close := by simp [hs]
  have hclient : w.fds r.fd = some ⟨c, .client⟩ :=
    ((reaches_inv h).descriptors.client c r hr hne).resolve_right hfd
  obtain ⟨w1,hrun,hI1,hsent⟩ := sends_supplied client_sender h hr (p := .pipe2) hne hclient
  obtain ⟨bs,hr1⟩ := hsent.record
  have hactive : Active w (.fire c .eSend) := sender_active h hr hne howed
  have hcb : run w (allAccepted w.heap c r .pipe2) = (xSendCbEnd c).run w1 := by
    refine Eq.trans ?_ hrun
    exact bind_ok (conn_run (w := supply w (allAccepted w.heap c r .pipe2)) hr)
  by_cases hup : r.upcStatus = .close
  · have hend : (xSendCbEnd c).run w1 = .ok () (closedClient w1 c (r.setPipe .pipe2 bs)) := by
      unfold xSendCbEnd
      rw [bind_ok (conn_run hr1), if_pos (show (r.setPipe .pipe2 bs).upcStatus = .close from hup)]
      exact close_served hI1 hr1 hs hup
    refine ⟨closedClient w1 c (r.setPipe .pipe2 bs),
      delivers_of h hr hne ⟨hactive, hcb.trans hend, ?_, ?_⟩ ?_ ?_, ?_⟩
    · simp [hsent.sys, supply]
    · simp [hsent.mallocs, supply]
    · have hio : departed (closedClient w1 c (r.setPipe .pipe2 bs)) c .pipe2 =
          departed w1 c .pipe2 := by simp [departed]
      rw [hio]
      exact hsent.sent
    · rw [unsent_put hr1 (closedClient_conns ..) (fun q => by cases q <;> rfl) (by simp)]
      exact hsent.empty
    · rw [if_pos hup]
      exact ⟨_, by rw [closedClient_conns]; exact if_pos rfl, rfl⟩
  · have hend : (xSendCbEnd c).run w1 = .ok () (w1.setWatcher c .eSend false) := by
      unfold xSendCbEnd
      rw [bind_ok (conn_run hr1),
        if_neg (show (r.setPipe .pipe2 bs).upcStatus ≠ .close from hup)]
      rfl
    refine ⟨w1.setWatcher c .eSend false, delivers_of h hr hne
      ⟨hactive, hcb.trans hend, hsent.sys, hsent.mallocs⟩ hsent.sent hsent.empty, ?_⟩
    rw [if_neg hup]
    simp

/-- What is held for a connected upstream can be sent to it in one turn of its
sender, which then stops. -/
theorem request_delivered (h : Reachable proxy w) (hr : w.conns.get c = some r)
    (hup : r.upcStatus = .working) (hon : w.loop c .upcESend = true) :
    ∃ w', Delivers w c r .pipe1 w' ∧ w'.loop c .upcESend = false := by
  have hpeer : w.fds r.upcFd = some ⟨c, .upstream⟩ :=
    (reaches_inv h).descriptors.upstream c r hr (isOpen_iff.mpr (.inr hup))
  obtain ⟨w1,hrun,-,hsent⟩ := sends_supplied upstream_sender h hr (p := .pipe1) hup hpeer
  have hcb : run w (allAccepted w.heap c r .pipe1) = (evStop c .upcESend).run w1 := by
    refine Eq.trans ?_ hrun
    exact bind_ok (conn_run (w := supply w (allAccepted w.heap c r .pipe1)) hr)
  exact ⟨w1.setWatcher c .upcESend false, delivers_of h hr
    (writable_not_close (p := .pipe1) (reaches_inv h) hr hup)
    ⟨hon, hcb, hsent.sys, hsent.mallocs⟩ hsent.sent hsent.empty, by simp⟩

/-- What a pipe holds is never stuck in it. Whatever a served client is owed,
and whatever is held for a connected upstream whose sender is active, reaches
its target in the next turn of the sender in which the kernel accepts what it
is offered. Then the sender stops, or the client whose upstream has been closed
is closed. -/
theorem held_bytes_delivered (h : Reachable proxy w) (hr : w.conns.get c = some r) :
    (r.status = .working → r.fd ≠ -1 → (unsent w c .pipe2 ≠ [] ∨ r.upcStatus = .close) →
      ∃ w', Delivers w c r .pipe2 w' ∧ if r.upcStatus = .close then
        ∃ r', w'.conns.get c = some r' ∧ r'.status = .close else w'.loop c .eSend = false) ∧
    (r.upcStatus = .working → w.loop c .upcESend = true →
      ∃ w', Delivers w c r .pipe1 w' ∧ w'.loop c .upcESend = false) :=
  ⟨response_delivered h hr, request_delivered h hr⟩

theorem held_bytes_delivered_oneConnected : ∃ w r w1 w2, w.conns.get 0 = some r ∧
    departed w 0 .pipe1 = [] ∧ departed w 0 .pipe2 = [] ∧
    Delivers w 0 r .pipe1 w1 ∧ departed w1 0 .pipe1 = [1] ∧
    Delivers w 0 r .pipe2 w2 ∧ departed w2 0 .pipe2 = [7] := by
  have hplay : (play (fun _ _ => true) (listener (singlePeer 1) (initialPool true))
      (oneConnected ++ [{
        event := .fire 0 .upcERecv
        sys := { recvs := [.got [7], .eagain, .eagain] }
        mallocs := [true] }])).any (fun w =>
      decide (departed w 0 .pipe1 = [] ∧ departed w 0 .pipe2 = [] ∧ unsent w 0 .pipe1 = [1] ∧
        unsent w 0 .pipe2 = [7] ∧ w.loop 0 .upcESend = true) &&
      (w.conns.get 0).any fun r => r.upcStatus = .working ∧ r.status = .working ∧ r.fd ≠ -1) =
      true := by
    decide +kernel
  obtain ⟨w,hreach,hw⟩ := play_reaches _ (.start (singlePeer_start 1)) hplay
  obtain ⟨hw,hrec⟩ := Bool.and_eq_true_iff.mp hw
  obtain ⟨hnone1,hnone2,hrequest,hresponse,hon⟩ := of_decide_eq_true hw
  obtain ⟨r,hr,hphases⟩ := (Option.any_eq_true _ _).mp hrec
  obtain ⟨hup,hserved,hfd⟩ := of_decide_eq_true hphases
  have hheld : unsent w 0 .pipe2 ≠ [] := by
    rw [hresponse]
    exact List.cons_ne_nil 7 []
  have hdelivered := held_bytes_delivered hreach.reachable hr
  obtain ⟨w1,hd1,-⟩ := hdelivered.2 hup hon
  obtain ⟨w2,hd2,-⟩ := hdelivered.1 hserved hfd (.inl hheld)
  refine ⟨w, r, w1, w2, hr, hnone1, hnone2, hd1, ?_, hd2, ?_⟩
  · rw [hd1.sent, hnone1, hrequest, List.nil_append]
  · rw [hd2.sent, hnone2, hresponse, List.nil_append]

end TcpFunnel.Delivery
