import TcpFunnel.Runs

/-!
# The attempts of the scheduler

What `x_upstream_handle` does is decided by the outcomes of `socket`, `fcntl`
and `connect`, which are given as infinite sequences here. An attempt whose
`connect` fails at once is refused: it gives back a slot that it never had and
the scheduler starts over with the same client.
-/

set_option autoImplicit false

namespace TcpFunnel.Attempts
open TcpFunnel.BufferPool TcpFunnel.Connection TcpFunnel.SystemCalls TcpFunnel.TransferLoops
open TcpFunnel.Upstream TcpFunnel.Actions TcpFunnel.Invariants TcpFunnel.QueueInvariant
open TcpFunnel.TransferRuns TcpFunnel.PipeSimulation TcpFunnel.SchedulerSimulation

structure Outcomes where
  sockets : ℕ → Option ℤ
  fcntls : ℕ → Bool
  connects : ℕ → ConnectAnswer

namespace Outcomes

def later (o : Outcomes) : Outcomes where
  sockets := fun j => o.sockets (j+1)
  fcntls := fun j => o.fcntls (j+2)
  connects := fun j => o.connects (j+1)

def first (o : Outcomes) (n : ℕ) : Answers where
  sockets := (List.range n).map o.sockets
  fcntls := (List.range (2*n)).map o.fcntls
  connects := (List.range n).map o.connects

/-- The attempt `j` gets a socket and gets as far as `connect`, when all before
it do. -/
def Connects (o : Outcomes) (j : ℕ) : Prop :=
  (o.sockets j).isSome ∧ o.fcntls (2*j) = true ∧ o.fcntls (2*j+1) = true

def Refused (o : Outcomes) (j : ℕ) : Prop := o.Connects j ∧ o.connects j = .error

theorem first_succ (o : Outcomes) (n : ℕ) : o.first (n+1) =
    { sockets := o.sockets 0 :: (o.later.first n).sockets
      fcntls := o.fcntls 0 :: o.fcntls 1 :: (o.later.first n).fcntls
      connects := o.connects 0 :: (o.later.first n).connects } := by
  have hdouble : 2*(n+1) = 2*n+1+1 := by omega
  unfold first
  simp only [hdouble, List.range_succ_eq_map, List.map_cons, List.map_map]
  rfl

theorem refused_before {o : Outcomes} {j : ℕ} (ho : o.Refused 0)
    (h : ∀ i, i < j → o.later.Refused i) : ∀ i, i < j+1 → o.Refused i := by
  intro i hi
  cases i with
  | zero => exact ho
  | succ i => exact h i (by omega)

end Outcomes

structure Waiting (w : World) (c : ConnId) (r : XtpConn) : Prop where
  head : Scheduled w c
  conn : w.conns.get c = some r
  closed : r.upcStatus = .none ∨ r.upcStatus = .close
  peers : w.ln.srvcf.upstream ≠ []

variable {w : World} {c : ConnId} {r : XtpConn} {o : Outcomes} {n : ℕ}

theorem Waiting.queue (h : Waiting w c r) : ∃ q, w.ln.cqWaiting = c::q := by
  have hhead := h.head.1
  cases hq : w.ln.cqWaiting with
  | nil => simp [hq] at hhead
  | cons d q =>
    rw [hq] at hhead
    cases hhead
    exact ⟨q, rfl⟩

def refusedOnce (w : World) (c : ConnId) (r : XtpConn) (i : ℕ) (fd : ℤ) : World :=
  closedUpstream (dialled w c i fd) c (dialledConn r i fd)

theorem refused_waiting (h : Waiting w c r) (i : ℕ) (fd : ℤ) :
    Waiting (refusedOnce w c r i fd) c { dialledConn r i fd with upcStatus := .close } := by
  obtain ⟨hhead,hlt⟩ := h.head
  constructor
  · constructor
    · simpa [refusedOnce] using hhead
    · simp only [refusedOnce, closedUpstream_frame, dialled_frame, chosen_frame]
      omega
  · simp [refusedOnce]
  · exact Or.inr rfl
  · simpa [refusedOnce] using h.peers

theorem refused_fds (i : ℕ) {fd : ℤ} (hfd : w.fds fd = none) :
    (refusedOnce w c r i fd).fds = w.fds := by
  funext g
  by_cases hg : g = fd
  · simp [refusedOnce, dialledConn, hg, hfd]
  · simp [refusedOnce, dialledConn, hg]

def Linked (w : World) (c : ConnId) : Prop :=
  ∀ d ∈ neighbours w.ln.cqWaiting c, d ≠ c → w.conns.get d ≠ none

/-- What refused attempts for `c` leave as it was, and what they take. -/
structure Refusals (w w' : World) (c : ConnId) (j : ℕ) : Prop where
  queue : w'.ln.cqWaiting = w.ln.cqWaiting
  working : w'.ln.workingNum = w.ln.workingNum-j
  others : ∀ d, d ≠ c → w'.conns.get d = w.conns.get d

theorem refusals_none (w : World) (c : ConnId) : Refusals w w c 0 where
  queue := rfl
  working := by simp
  others := fun _ _ => rfl

theorem refusals_once {w' : World} {i j : ℕ} {fd : ℤ}
    (h : Refusals (refusedOnce w c r i fd) w' c j) : Refusals w w' c (j+1) where
  queue := by simpa [refusedOnce] using h.queue
  working := by
    have hworking : (refusedOnce w c r i fd).ln.workingNum = w.ln.workingNum-1 := by
      simp [refusedOnce]
    have hlater := h.working
    rw [hworking] at hlater
    push_cast
    omega
  others := by
    intro d hd
    rw [h.others d hd]
    simp [refusedOnce, hd]

theorem Refusals.linked {w' : World} {j : ℕ} (h : Refusals w w' c j) :
    Linked w' c ↔ Linked w c := by
  unfold Linked
  rw [h.queue]
  apply forall₃_congr
  intro d _ hne
  rw [h.others d hne]

section runs

variable {S : List (Option ℤ)} {F : List Bool} {C : List ConnectAnswer} {fd : ℤ}

theorem socket_none (h : w.sys.sockets = none::S) :
    (socket c).run w = .ok (-1) (w.setSys { w.sys with sockets := S }) := by
  have hrun : nextSocket.run w = .ok none (w.setSys { w.sys with sockets := S }) := answer_some h
  unfold socket
  rw [bind_ok hrun]
  rfl

theorem socket_some (h : w.sys.sockets = some fd::S) :
    (socket c).run w = if Fresh w fd
      then .ok fd ((w.setSys { w.sys with sockets := S }).openFd fd ⟨c, .upstream⟩)
      else .error .pending (w.setSys { w.sys with sockets := S }) := by
  have hrun : nextSocket.run w = .ok (some fd) (w.setSys { w.sys with sockets := S }) :=
    answer_some h
  have hfresh : Fresh (w.setSys { w.sys with sockets := S }) fd ↔ Fresh w fd := Iff.rfl
  unfold socket
  rw [bind_ok hrun]
  simp only [bind_ok (get_run _)]
  by_cases hf : Fresh w fd
  · rw [if_pos hf, if_neg (not_not.mpr (hfresh.mpr hf))]
    rfl
  · rw [if_neg hf, if_pos (fun h => hf (hfresh.mp h))]
    rfl

/-- The two calls of `fcntl`, of which the second is only made after the first
has succeeded. -/
theorem xSetNonBlock_two {f g : Bool} (h : w.sys.fcntls = f::g::F) :
    ∃ rest, xSetNonBlock.run w =
      .ok (if f = true ∧ g = true then 0 else -1) (w.setSys { w.sys with fcntls := rest }) ∧
      (f = true ∧ g = true → rest = F) := by
  have hrun : nextFcntl.run w = .ok f (w.setSys { w.sys with fcntls := g::F }) := answer_some h
  unfold xSetNonBlock
  cases f with
  | false =>
    refine ⟨g::F, (bind_ok hrun).trans ?_, by simp⟩
    rfl
  | true =>
    have hsecond : nextFcntl.run (w.setSys { w.sys with fcntls := g::F }) =
        .ok g (w.setSys { w.sys with fcntls := F }) := answer_some rfl
    cases g with
    | false =>
      refine ⟨F, (bind_ok hrun).trans ((bind_ok hsecond).trans ?_), by simp⟩
      rfl
    | true =>
      refine ⟨F, (bind_ok hrun).trans ((bind_ok hsecond).trans ?_), by simp⟩
      rfl

theorem new_noSocket {i : ℕ} (h : w.sys.sockets = none::S) : (xUpstreamConnectionNew c i).run w =
    .ok xnetErr (w.setSys { w.sys with sockets := S }) := by
  unfold xUpstreamConnectionNew
  rw [bind_ok (socket_none h), if_pos rfl]
  rfl

theorem new_invalid {i : ℕ} (h : w.sys.sockets = some fd::S) (hfd : ¬ Fresh w fd) :
    ∃ w', (xUpstreamConnectionNew c i).run w = .error .pending w' := by
  have hsocket := socket_some (c := c) h
  rw [if_neg hfd] at hsocket
  unfold xUpstreamConnectionNew
  exact ⟨_, bind_error hsocket⟩

theorem fresh_ne (hfd : Fresh w fd) : fd ≠ -1 := by
  rintro rfl
  exact absurd hfd.1 (by decide)

theorem new_leaked {i : ℕ} {f g : Bool} (h : w.sys.sockets = some fd::S) (hfd : Fresh w fd)
    (hfcntls : w.sys.fcntls = f::g::F) (hfg : ¬ (f = true ∧ g = true)) :
    ∃ t, (xUpstreamConnectionNew c i).run w =
      .ok xnetErr ((w.openFd fd ⟨c, .upstream⟩).setSys t) := by
  have hsocket := socket_some (c := c) h
  rw [if_pos hfd] at hsocket
  set w1 := (w.setSys { w.sys with sockets := S }).openFd fd ⟨c, .upstream⟩ with hw1
  have hfcntls1 : w1.sys.fcntls = f::g::F := hfcntls
  obtain ⟨rest,hblock,-⟩ := xSetNonBlock_two hfcntls1
  rw [if_neg hfg] at hblock
  unfold xUpstreamConnectionNew
  rw [bind_ok hsocket, if_neg (fresh_ne hfd), bind_ok hblock, if_pos rfl]
  exact ⟨_, rfl⟩

theorem new_connect {i : ℕ} {a : ConnectAnswer} (hr : w.conns.get c = some r)
    (hi : i < w.ln.srvcf.upstream.length) (h : w.sys.sockets = some fd::S) (hfd : Fresh w fd)
    (hfcntls : w.sys.fcntls = true::true::F) (hconnects : w.sys.connects = a::C) :
    (xUpstreamConnectionNew c i).run w = .ok (if a = .error then xnetErr else xnetOk)
      ((watched (w.openFd fd ⟨c, .upstream⟩) c r fd).setSys
        { w.sys with sockets := S, fcntls := F, connects := C }) := by
  have hsocket := socket_some (c := c) h
  rw [if_pos hfd] at hsocket
  set w1 := (w.setSys { w.sys with sockets := S }).openFd fd ⟨c, .upstream⟩ with hw1
  have hfcntls1 : w1.sys.fcntls = true::true::F := hfcntls
  obtain ⟨rest,hblock,hrest⟩ := xSetNonBlock_two hfcntls1
  rw [hrest ⟨rfl, rfl⟩] at hblock
  set w2 := w1.setSys { w1.sys with fcntls := F } with hw2
  have hr2 : w2.conns.get c = some r := hr
  obtain ⟨p,hp⟩ := peer_run (show i < (watched w2 c r fd).ln.srvcf.upstream.length from hi)
  have hconnects2 : (watched w2 c r fd).sys.connects = a::C := hconnects
  have hanswer : nextConnect.run (watched w2 c r fd) = .ok a
      ((watched w2 c r fd).setSys { (watched w2 c r fd).sys with connects := C }) :=
    answer_some hconnects2
  have hworld : (watched w2 c r fd).setSys { (watched w2 c r fd).sys with connects := C } =
      (watched (w.openFd fd ⟨c, .upstream⟩) c r fd).setSys
        { w.sys with sockets := S, fcntls := F, connects := C } := by
    rw [hw2, hw1, openFd_setSys, setSys_setSys, watched_setSys, setSys_setSys]
    rfl
  unfold xUpstreamConnectionNew
  rw [bind_ok hsocket, if_neg (fresh_ne hfd), bind_ok hblock, if_neg (by decide), watched_run hr2,
    bind_ok hp, bind_ok hanswer, hworld]
  cases a <;> rfl

inductive Attempted (w : World) (c : ConnId) (r : XtpConn) (o : Outcomes) (n : ℕ) :
    EStateM.Result Stop World ℤ → Prop
  | invalid {fd w'} (hs : o.sockets 0 = some fd) (hfd : ¬ Fresh w fd) :
      Attempted w c r o n (.error .pending w')
  | abandoned {i leaked t} (hi : Chosen w i) (ho : ¬ o.Connects 0) :
      Attempted w c r o n (.ok xnetErr ((abandoned w c r i leaked).setSys t))
  | dialled {i fd} (hi : Chosen w i) (ho : o.Connects 0) (hs : o.sockets 0 = some fd)
      (hfd : Fresh w fd) :
      Attempted w c r o n (.ok (if o.connects 0 = .error then xnetErr else xnetOk)
        (((dialled w c i fd).putConn c (dialledConn r i fd)).setSys (o.later.first n)))

theorem init_attempted (hr : w.conns.get c = some r) (hup : w.ln.srvcf.upstream ≠ []) :
    Attempted w c r o n ((xUpstreamInit c).run (w.setSys (o.first (n+1)))) := by
  set w0 := w.setSys (o.first (n+1)) with hw0
  have hr0 : w0.conns.get c = some r := hr
  obtain ⟨i,hi,hchoose⟩ := choosePeer_run (w := w0) hup
  have hi' : Chosen w i := hi
  unfold xUpstreamInit
  rw [bind_ok (conn_run hr0), bind_ok hchoose]
  set w1 := chosen w0 i with hw1
  have hr1 : w1.conns.get c = some r := hr
  have hi1 : i < w1.ln.srvcf.upstream.length := hi.1
  have hsys : w1.sys = o.first (n+1) := by simp [hw1, hw0]
  rw [Outcomes.first_succ] at hsys
  cases hs : o.sockets 0 with
  | none =>
    have hno : ¬ o.Connects 0 := by simp [Outcomes.Connects, hs]
    have hsockets : w1.sys.sockets = none :: (o.later.first n).sockets := by rw [hsys, hs]
    have hget : (w1.setSys { w1.sys with sockets := (o.later.first n).sockets }).conns.get c =
        some r := hr
    rw [bind_ok (new_noSocket hsockets), bind_ok (setConn_run hget _)]
    exact @Attempted.abandoned w c r o n i none _ hi' hno
  | some fd =>
    have hsockets : w1.sys.sockets = some fd :: (o.later.first n).sockets := by rw [hsys, hs]
    by_cases hfd : Fresh w fd
    · have hfd1 : Fresh w1 fd := hfd
      by_cases hboth : o.fcntls 0 = true ∧ o.fcntls 1 = true
      · have hconn : o.Connects 0 := ⟨by simp [hs], hboth.1, hboth.2⟩
        have hfcntls : w1.sys.fcntls = true::true::(o.later.first n).fcntls := by
          rw [hsys, hboth.1, hboth.2]
        have hconnects : w1.sys.connects = o.connects 0 :: (o.later.first n).connects := by
          rw [hsys]
        have hnew := new_connect hr1 hi1 hsockets hfd1 hfcntls hconnects
        have hrest : ({ w1.sys with
            sockets := (o.later.first n).sockets, fcntls := (o.later.first n).fcntls
            connects := (o.later.first n).connects } : Answers) = o.later.first n := by
          rw [hsys]
          rfl
        rw [hrest] at hnew
        have hget : ((watched (w1.openFd fd ⟨c, .upstream⟩) c r fd).setSys
            (o.later.first n)).conns.get c = some
              { r with
                upcFd := fd, upcStatus := .connect, upcTimerRepeat := connConnectTimeout } := by
          simp [watched]
        have hdialled := Attempted.dialled (c := c) (r := r) (n := n) hi' hconn hs hfd
        rw [bind_ok hnew, bind_ok (setConn_run hget _)]
        convert hdialled using 2
        simp [hw1, hw0, watched, dialled, dialledConn, chosen, World.putConn, World.setWatcher,
          World.setSys, World.openFd, World.setLn]
      · have hno : ¬ o.Connects 0 := fun h => hboth ⟨h.2.1, h.2.2⟩
        have hfcntls : w1.sys.fcntls = o.fcntls 0 :: o.fcntls 1 :: (o.later.first n).fcntls := by
          rw [hsys]
        obtain ⟨t,hnew⟩ := new_leaked (c := c) (i := i) hsockets hfd1 hfcntls hboth
        have hget : ((w1.openFd fd ⟨c, .upstream⟩).setSys t).conns.get c = some r := hr
        rw [bind_ok hnew, bind_ok (setConn_run hget _)]
        exact @Attempted.abandoned w c r o n i (some fd) _ hi' hno
    · obtain ⟨w',hnew⟩ := new_invalid (c := c) (i := i) hsockets hfd
      rw [bind_error hnew]
      exact .invalid hs hfd

inductive Handled (w : World) (c : ConnId) (r : XtpConn) (o : Outcomes) (depth n : ℕ) :
    EStateM.Result Stop World ℤ → Prop
  | invalid {fd w'} (hs : o.sockets 0 = some fd) (hfd : ¬ Fresh w fd) :
      Handled w c r o depth n (.error .pending w')
  | abandoned {i leaked t} (hi : Chosen w i) (ho : ¬ o.Connects 0) :
      Handled w c r o depth n (.ok xnetErr ((abandoned w c r i leaked).setSys t))
  | refused {i fd} (hi : Chosen w i) (ho : o.Refused 0) (hfd : Fresh w fd) :
      Handled w c r o depth n ((xUpstreamHandleAt depth >>= fun _ => pure xnetErr).run
        ((refusedOnce w c r i fd).setSys (o.later.first n)))
  | promoted {i fd} (hi : Chosen w i) (ho : o.Connects 0) (hok : o.connects 0 ≠ .error)
      (hlive : ∀ d ∈ neighbours w.ln.cqWaiting c, d ≠ c → w.conns.get d ≠ none) :
      Handled w c r o depth n
        (.ok xnetOk ((promoted w c r i fd).setSys (o.later.first n)))
  | dangling {d w'} (ho : o.Connects 0) (hok : o.connects 0 ≠ .error)
      (hd : d ∈ neighbours w.ln.cqWaiting c) (hne : d ≠ c) (hdead : w.conns.get d = none) :
      Handled w c r o depth n (.error .useAfterFree w')

theorem handle_attempted (h : Waiting w c r) (depth : ℕ) : Handled w c r o depth n
    ((xUpstreamHandleAt (depth+1)).run (w.setSys (o.first (n+1)))) := by
  have hinit := init_attempted (o := o) (n := n) h.conn h.peers
  obtain ⟨q,hq⟩ := h.queue
  have hq0 : (w.setSys (o.first (n+1))).ln.cqWaiting = c::q := hq
  have hlt : ¬ (w.setSys (o.first (n+1))).ln.workingNum ≥
      (w.setSys (o.first (n+1))).ln.srvcf.workingNumMax := Int.not_le.mpr h.head.2
  unfold xUpstreamHandleAt
  rw [bind_ok (get_run _)]
  simp only [hq0]
  rw [if_neg hlt]
  cases hrun : (xUpstreamInit c).run (w.setSys (o.first (n+1))) with
  | error e w' =>
    rw [hrun] at hinit
    rw [bind_error hrun]
    cases hinit with
    | invalid hs hfd => exact .invalid hs hfd
  | ok rc w' =>
    rw [hrun] at hinit
    rw [bind_ok hrun]
    cases hinit with
    | @abandoned i leaked t hi ho =>
      have hget : ((abandoned w c r i leaked).setSys t).conns.get c =
          some { r with upcf := some i } := by simp
      rw [if_neg (by decide), bind_ok (final_closed hget h.closed _)]
      exact .abandoned hi ho
    | @dialled i fd hi ho hs hfd =>
      by_cases herr : o.connects 0 = .error
      · have hget : (((dialled w c i fd).putConn c (dialledConn r i fd)).setSys
            (o.later.first n)).conns.get c = some (dialledConn r i fd) := by simp
        have hfinal := final_run hget (by simp [dialledConn]) (by simp [dialledConn])
          (xUpstreamHandleAt depth)
        rw [closedUpstream_written] at hfinal
        rw [if_pos herr, if_neg (by decide)]
        have hagain : (do xUpstreamFinalWith (xUpstreamHandleAt depth) c; pure xnetErr :
            Callback ℤ).run (((dialled w c i fd).putConn c (dialledConn r i fd)).setSys
              (o.later.first n)) = (xUpstreamHandleAt depth >>= fun _ => pure xnetErr).run
              ((refusedOnce w c r i fd).setSys (o.later.first n)) := by
          rw [EStateM.run_bind, hfinal, ← EStateM.run_bind, bind_assoc]
          rfl
        exact hagain ▸ .refused hi ⟨ho, herr⟩ hfd
      · rw [if_neg herr, if_pos rfl]
        rcases @promotion_run w c r i fd (o.later.first n) h.head (pure xnetOk) with
          ⟨hpromote,hlive⟩ |
          ⟨hpromote,d,hd,hne,hdead⟩
        · exact hpromote ▸ .promoted hi ho herr hlive
        · exact hpromote ▸ .dangling ho herr hd hne hdead

theorem handle_unanswered (h : Waiting w c r) (depth : ℕ) :
    ∃ w', (xUpstreamHandleAt depth).run (w.setSys (o.first 0)) = .error .pending w' := by
  cases depth with
  | zero => exact ⟨_, rfl⟩
  | succ depth =>
    obtain ⟨q,hq⟩ := h.queue
    set w0 := w.setSys (o.first 0) with hw0
    have hq0 : w0.ln.cqWaiting = c::q := hq
    have hlt0 : ¬ w0.ln.workingNum ≥ w0.ln.srvcf.workingNumMax := Int.not_le.mpr h.head.2
    have hr0 : w0.conns.get c = some r := h.conn
    obtain ⟨i,-,hchoose⟩ := choosePeer_run (w := w0) h.peers
    have hnext : nextSocket.run (chosen w0 i) = .error .pending (chosen w0 i) := answer_none rfl
    have hnew : (xUpstreamConnectionNew c i).run (chosen w0 i) =
        .error .pending (chosen w0 i) := by
      unfold xUpstreamConnectionNew socket
      exact bind_error (bind_error hnext)
    have hinit : (xUpstreamInit c).run w0 = .error .pending (chosen w0 i) := by
      unfold xUpstreamInit
      rw [bind_ok (conn_run hr0), bind_ok hchoose]
      exact bind_error hnew
    apply Exists.intro (chosen w0 i)
    unfold xUpstreamHandleAt
    rw [bind_ok (get_run _)]
    simp only [hq0]
    rw [if_neg hlt0]
    exact bind_error hinit

/-- The attempt that ends the calls comes after `j` refused ones. -/
inductive Ended (w : World) (c : ConnId) (o : Outcomes) (w' : World) : Prop
  | abandoned {j i leaked t w₁ r₁} (hbefore : ∀ i, i < j → o.Refused i) (ho : ¬ o.Connects j)
      (h : Refusals w w₁ c j) (hw : w' = (abandoned w₁ c r₁ i leaked).setSys t)
  | promoted {j i fd t w₁ r₁} (hbefore : ∀ i, i < j → o.Refused i) (ho : ¬ o.Refused j)
      (h : Refusals w w₁ c j) (hlink : Linked w₁ c) (hw : w' = (promoted w₁ c r₁ i fd).setSys t)

theorem Ended.refused {w' : World} {i : ℕ} {fd : ℤ} (ho : o.Refused 0)
    (h : Ended (refusedOnce w c r i fd) c o.later w') : Ended w c o w' := by
  cases h with
  | abandoned hbefore ho' hsteps hw =>
    exact .abandoned (Outcomes.refused_before ho hbefore) ho' (refusals_once hsteps) hw
  | promoted hbefore ho' hsteps hlink hw =>
    exact .promoted (Outcomes.refused_before ho hbefore) ho' (refusals_once hsteps) hlink hw

/-- A run that returns has come to an attempt that is not refused. -/
theorem handle_ended (depth : ℕ) {w w' : World} {r : XtpConn} {o : Outcomes} {n : ℕ} {a : ℤ}
    (h : Waiting w c r) (hrun : (xUpstreamHandleAt depth).run (w.setSys (o.first n)) = .ok a w') :
    Ended w c o w' := by
  induction depth generalizing w r o n a w' with
  | zero => cases hrun
  | succ depth ih =>
    cases n with
    | zero =>
      obtain ⟨w'',hpending⟩ := handle_unanswered (o := o) h (depth+1)
      rw [hpending] at hrun
      cases hrun
    | succ n =>
      have hnone : ∀ i, i < 0 → o.Refused i := fun i hi => absurd hi (Nat.not_lt_zero i)
      have hstep := handle_attempted (o := o) (n := n) h depth
      generalize (xUpstreamHandleAt (depth+1)).run (w.setSys (o.first (n+1))) = res at hstep hrun
      cases hstep with
      | invalid => cases hrun
      | abandoned hi ho =>
        cases hrun
        exact .abandoned hnone ho (refusals_none w c) rfl
      | @refused i fd hi ho hfd =>
        cases hnext : (xUpstreamHandleAt depth).run
            ((refusedOnce w c r i fd).setSys (o.later.first n)) with
        | error e w'' =>
          rw [bind_error hnext] at hrun
          cases hrun
        | ok b w'' =>
          rw [bind_ok hnext] at hrun
          cases hrun
          exact (ih (refused_waiting h i fd) hnext).refused ho
      | promoted hi ho hok hlive =>
        cases hrun
        exact .promoted hnone (fun h => hok h.2) (refusals_none w c) hlive rfl
      | dangling => cases hrun

end runs

section activations

theorem handle_run (w : World) (o : Outcomes) (n : ℕ) : xUpstreamHandle.run (w.setSys (o.first n)) =
    (xUpstreamHandleAt (n+1)).run (w.setSys (o.first n)) := by
  have hlen : (o.first n).sockets.length = n := by simp [Outcomes.first]
  unfold xUpstreamHandle
  rw [bind_ok (get_run _)]
  simp only [World.setSys_sys, hlen]

theorem handle_empty (h : w.ln.cqWaiting = []) (depth : ℕ) :
    (xUpstreamHandleAt (depth+1)).run w = .ok xnetOk w := by
  unfold xUpstreamHandleAt
  rw [bind_ok (get_run _)]
  simp only [h]
  rfl

theorem handle_full {q : List ConnId} (h : w.ln.cqWaiting = c::q)
    (hfull : w.ln.srvcf.workingNumMax ≤ w.ln.workingNum) (depth : ℕ) :
    (xUpstreamHandleAt (depth+1)).run w = .ok xnetBusy w := by
  unfold xUpstreamHandleAt
  rw [bind_ok (get_run _)]
  simp only [h]
  rw [if_pos hfull]
  rfl

theorem handle_freed {q : List ConnId} (h : w.ln.cqWaiting = c::q)
    (hfree : ¬ w.ln.srvcf.workingNumMax ≤ w.ln.workingNum) (hr : w.conns.get c = none)
    (depth : ℕ) : (xUpstreamHandleAt (depth+1)).run w = .error .useAfterFree w := by
  have hinit : (xUpstreamInit c).run w = .error .useAfterFree w := by
    unfold xUpstreamInit conn
    apply bind_error
    rw [bind_ok (get_run _)]
    simp only [hr]
    rfl
  unfold xUpstreamHandleAt
  rw [bind_ok (get_run _)]
  simp only [h]
  rw [if_neg hfree]
  exact bind_error hinit

theorem handle_peerless {q : List ConnId} (h : w.ln.cqWaiting = c::q)
    (hfree : ¬ w.ln.srvcf.workingNumMax ≤ w.ln.workingNum) (hr : w.conns.get c = some r)
    (hup : w.ln.srvcf.upstream = []) (depth : ℕ) :
    (xUpstreamHandleAt (depth+1)).run w = .error .divisionByZero w := by
  have hinit : (xUpstreamInit c).run w = .error .divisionByZero w := by
    unfold xUpstreamInit
    rw [bind_ok (conn_run hr)]
    exact bind_error (choosePeer_empty hup)
  unfold xUpstreamHandleAt
  rw [bind_ok (get_run _)]
  simp only [h]
  rw [if_neg hfree]
  exact bind_error hinit

def Settled (w : World) : Prop :=
  ∀ c r, w.ln.cqWaiting.head? = some c → w.conns.get c = some r →
    r.upcStatus = .none ∨ r.upcStatus = .close

theorem settled_inv {busy : Busy} {due : Bool} {fs : List Failure} {is : List Incident}
    (hI : Inv ⟨w, busy, due, fs, is⟩) : Settled w := by
  intro c r hhead hr
  have hmem := hI.queue.mem c (List.mem_of_mem_head? hhead) r hr
  exact closed_upcStatus (hI.records.phase c r hr) hmem.2

theorem handle_returned {a : ℤ} {w' : World} (h : Settled w) (depth : ℕ)
    (hrun : (xUpstreamHandleAt (depth+1)).run w = .ok a w') :
    (w.ln.cqWaiting = [] ∧ a = xnetOk ∧ w' = w) ∨
    (w.ln.srvcf.workingNumMax ≤ w.ln.workingNum ∧ w' = w) ∨ ∃ c r, Waiting w c r := by
  cases hq : w.ln.cqWaiting with
  | nil =>
    rw [handle_empty hq] at hrun
    cases hrun
    exact Or.inl ⟨rfl, rfl, rfl⟩
  | cons c q =>
    by_cases hfull : w.ln.srvcf.workingNumMax ≤ w.ln.workingNum
    · rw [handle_full hq hfull] at hrun
      cases hrun
      exact Or.inr (Or.inl ⟨hfull, rfl⟩)
    · have hhead : w.ln.cqWaiting.head? = some c := by simp [hq]
      cases hr : w.conns.get c with
      | none =>
        rw [handle_freed hq hfull hr] at hrun
        cases hrun
      | some r =>
        by_cases hup : w.ln.srvcf.upstream = []
        · rw [handle_peerless hq hfull hr hup] at hrun
          cases hrun
        · exact Or.inr (Or.inr ⟨c, r, ⟨hhead, Int.not_le.mp hfull⟩, hr, h c r hhead hr, hup⟩)

end activations

end TcpFunnel.Attempts
