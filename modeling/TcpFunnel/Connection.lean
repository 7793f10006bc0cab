import TcpFunnel.BufferPool

/-!
# Connections, the listener and its surroundings

`xtp_connection.h`, `xtp_conf.h`, and what the callbacks act on besides:
the watchers libev has active, the kernel's descriptor table and the answers
the kernel has yet to give. A connection record is named by the order in
which `x_accept_cb` created it; after `zfree` its name maps to no record and
any access through it stops the run.

Three histories are kept alongside, and no branch reads them: the bytes moved
by `recv` and `send`, the descriptors obtained and closed, and the milestones
of the waiting queue and of the slot counter.
-/

set_option autoImplicit false

namespace TcpFunnel.Connection
open TcpFunnel.BufferPool

abbrev ConnId := ℕ

inductive ConnPhase where
  | none
  | waiting
  | working
  | connect
  | timeout
  | close
  | error
  deriving DecidableEq, Repr

structure XtpUpstreamConf where
  ip : String
  port : ℤ
  timeout : ℤ
  deriving DecidableEq, Repr

/-- `upstream_num` is the number of entries of the table `upstream`. -/
structure XtpSrvconf where
  accessMax : ℤ
  accessTimeout : ℤ
  upstream : List XtpUpstreamConf
  upstreamIndex : ℕ
  workingNumMax : ℤ
  deriving DecidableEq, Repr

inductive Pipe where
  | pipe1
  | pipe2
  deriving DecidableEq, Repr

/-- Timer periods are in tenths of a second. The pointer `upcf` is an index
into the upstream table. -/
structure XtpConn where
  fd : ℤ
  status : ConnPhase
  timerRepeat : ℤ
  pipe1 : List BufId
  pipe2 : List BufId
  upcf : Option ℕ
  upcFd : ℤ
  upcTimerRepeat : ℤ
  upcStatus : ConnPhase
  deriving DecidableEq, Repr

namespace XtpConn

def pipe (r : XtpConn) : Pipe → List BufId
  | .pipe1 => r.pipe1
  | .pipe2 => r.pipe2

def setPipe (r : XtpConn) : Pipe → List BufId → XtpConn
  | .pipe1, bs => { r with pipe1 := bs }
  | .pipe2, bs => { r with pipe2 := bs }

def isOpen (r : XtpConn) : Bool := r.upcStatus = .connect ∨ r.upcStatus = .working

@[simp] theorem setPipe_pipe (r : XtpConn) (p q : Pipe) (bs : List BufId) :
    (r.setPipe p bs).pipe q = if q = p then bs else r.pipe q := by
  cases p <;> cases q <;> rfl

@[simp] theorem setPipe_frame (r : XtpConn) (p : Pipe) (bs : List BufId) :
    (r.setPipe p bs).fd = r.fd ∧ (r.setPipe p bs).status = r.status ∧
    (r.setPipe p bs).timerRepeat = r.timerRepeat ∧ (r.setPipe p bs).upcf = r.upcf ∧
    (r.setPipe p bs).upcFd = r.upcFd ∧ (r.setPipe p bs).upcStatus = r.upcStatus ∧
    (r.setPipe p bs).isOpen = r.isOpen := by
  cases p <;> exact ⟨rfl, rfl, rfl, rfl, rfl, rfl, rfl⟩

end XtpConn

def connFreeTimeout : ℤ := 30
def connConnectTimeout : ℤ := 5

structure XtpConnListen where
  srvcf : XtpSrvconf
  cCount : ℤ
  cqWaiting : List ConnId
  cqWaitingNum : ℤ
  workingNum : ℤ
  timeout : ℤ
  deriving DecidableEq, Repr

inductive Watcher where
  | eRecv
  | eSend
  | eTimer
  | upcERecv
  | upcESend
  | upcEConnected
  | upcETimer
  deriving DecidableEq, Repr

inductive Side where
  | client
  | upstream
  deriving DecidableEq, Repr

/-- A socket is the client's or an upstream one of the record it was obtained
for. -/
structure Sock where
  owner : ConnId
  side : Side
  deriving DecidableEq, Repr

inductive IoKind where
  | recv
  | send
  deriving DecidableEq, Repr

structure Transfer where
  sock : Sock
  kind : IoKind
  bytes : List UInt8
  deriving DecidableEq, Repr

inductive FdEvent where
  | opened (fd : ℤ)
  | closed (fd : ℤ)
  deriving DecidableEq, Repr

inductive Milestone where
  | inserted (c : ConnId)
  | promoted (c : ConnId)
  | released (c : ConnId)
  | closed (c : ConnId)
  deriving DecidableEq, Repr

inductive RecvAnswer where
  | got (bytes : List UInt8)
  | eintr
  | eagain
  | error
  deriving DecidableEq, Repr

inductive SendAnswer where
  | sent (n : ℕ)
  | eintr
  | eagain
  | error
  deriving DecidableEq, Repr

inductive AcceptAnswer where
  | fd (newfd : ℤ)
  | eagain
  | error
  deriving DecidableEq, Repr

inductive ConnectAnswer where
  | ok
  | inProgress
  | error
  deriving DecidableEq, Repr

inductive SockoptAnswer where
  | valopt (v : ℤ)
  | error
  deriving DecidableEq, Repr

/-- What the kernel will answer, one list for each system call, oldest first.
`socket` answers a descriptor or fails, `fcntl` succeeds or fails. -/
structure Answers where
  accepts : List AcceptAnswer := []
  recvs : List RecvAnswer := []
  sends : List SendAnswer := []
  sockets : List (Option ℤ) := []
  fcntls : List Bool := []
  connects : List ConnectAnswer := []
  sockopts : List SockoptAnswer := []
  deriving DecidableEq, Repr

/-- The last fields are histories: the transfers, the descriptors, the milestones
and the results of `x_upstream_choose_peer`. -/
structure World where
  ln : XtpConnListen
  heap : Heap
  conns : Store XtpConn
  loop : ConnId → Watcher → Bool
  fds : ℤ → Option Sock
  sys : Answers
  io : List Transfer
  fdLog : List FdEvent
  log : List Milestone
  choices : List ℕ

abbrev Callback (α : Type) := EStateM Stop World α

namespace World

def putConn (w : World) (c : ConnId) (r : XtpConn) : World :=
  { w with conns := w.conns.set c r }

def setWatcher (w : World) (c : ConnId) (k : Watcher) (on : Bool) : World :=
  { w with loop := fun d j => if d = c ∧ j = k then on else w.loop d j }

def openFd (w : World) (fd : ℤ) (s : Sock) : World :=
  { w with fds := fun g => if g = fd then some s else w.fds g, fdLog := w.fdLog ++ [.opened fd] }

def closeFd (w : World) (fd : ℤ) : World :=
  { w with fds := fun g => if g = fd then none else w.fds g, fdLog := w.fdLog ++ [.closed fd] }

def setLn (w : World) (f : XtpConnListen → XtpConnListen) : World := { w with ln := f w.ln }

def note (w : World) (m : Milestone) : World := { w with log := w.log ++ [m] }

def choose (w : World) (i : ℕ) : World := { w with choices := w.choices ++ [i] }

def transfer (w : World) (t : Transfer) : World := { w with io := w.io ++ [t] }

def setSys (w : World) (t : Answers) : World := { w with sys := t }

def setHeap (w : World) (h : Heap) : World := { w with heap := h }

def pipes (w : World) (c : ConnId) (p : Pipe) : List BufId :=
  ((w.conns.get c).map (·.pipe p)).getD []

section frames

variable (w : World) (c : ConnId)

@[simp] theorem putConn_conns (r : XtpConn) : (w.putConn c r).conns = w.conns.set c r := rfl

@[simp] theorem putConn_frame (r : XtpConn) :
    (w.putConn c r).ln = w.ln ∧ (w.putConn c r).heap = w.heap ∧
    (w.putConn c r).loop = w.loop ∧ (w.putConn c r).fds = w.fds ∧
    (w.putConn c r).sys = w.sys ∧ (w.putConn c r).io = w.io ∧
    (w.putConn c r).fdLog = w.fdLog ∧ (w.putConn c r).log = w.log := by
  simp [putConn]

@[simp] theorem setWatcher_loop (k j : Watcher) (on : Bool) (d : ConnId) :
    (w.setWatcher c k on).loop d j = if d = c ∧ j = k then on else w.loop d j := rfl

@[simp] theorem setWatcher_frame (k : Watcher) (on : Bool) :
    (w.setWatcher c k on).ln = w.ln ∧ (w.setWatcher c k on).heap = w.heap ∧
    (w.setWatcher c k on).conns = w.conns ∧ (w.setWatcher c k on).fds = w.fds ∧
    (w.setWatcher c k on).sys = w.sys ∧ (w.setWatcher c k on).io = w.io ∧
    (w.setWatcher c k on).fdLog = w.fdLog ∧ (w.setWatcher c k on).log = w.log := by
  simp [setWatcher]

@[simp] theorem openFd_fds (fd g : ℤ) (s : Sock) :
    (w.openFd fd s).fds g = if g = fd then some s else w.fds g := rfl

@[simp] theorem openFd_frame (fd : ℤ) (s : Sock) :
    (w.openFd fd s).ln = w.ln ∧ (w.openFd fd s).heap = w.heap ∧
    (w.openFd fd s).conns = w.conns ∧ (w.openFd fd s).loop = w.loop ∧
    (w.openFd fd s).sys = w.sys ∧ (w.openFd fd s).io = w.io ∧
    (w.openFd fd s).fdLog = w.fdLog ++ [.opened fd] ∧ (w.openFd fd s).log = w.log := by
  simp [openFd]

@[simp] theorem closeFd_fds (fd g : ℤ) :
    (w.closeFd fd).fds g = if g = fd then none else w.fds g := rfl

@[simp] theorem closeFd_frame (fd : ℤ) :
    (w.closeFd fd).ln = w.ln ∧ (w.closeFd fd).heap = w.heap ∧
    (w.closeFd fd).conns = w.conns ∧ (w.closeFd fd).loop = w.loop ∧
    (w.closeFd fd).sys = w.sys ∧ (w.closeFd fd).io = w.io ∧
    (w.closeFd fd).fdLog = w.fdLog ++ [.closed fd] ∧ (w.closeFd fd).log = w.log := by
  simp [closeFd]

@[simp] theorem setLn_ln (f : XtpConnListen → XtpConnListen) : (w.setLn f).ln = f w.ln := rfl

@[simp] theorem setLn_frame (f : XtpConnListen → XtpConnListen) :
    (w.setLn f).heap = w.heap ∧ (w.setLn f).conns = w.conns ∧
    (w.setLn f).loop = w.loop ∧ (w.setLn f).fds = w.fds ∧
    (w.setLn f).sys = w.sys ∧ (w.setLn f).io = w.io ∧
    (w.setLn f).fdLog = w.fdLog ∧ (w.setLn f).log = w.log := by
  simp [setLn]

@[simp] theorem note_log (m : Milestone) : (w.note m).log = w.log ++ [m] := rfl

@[simp] theorem note_frame (m : Milestone) :
    (w.note m).ln = w.ln ∧ (w.note m).heap = w.heap ∧ (w.note m).conns = w.conns ∧
    (w.note m).loop = w.loop ∧ (w.note m).fds = w.fds ∧ (w.note m).sys = w.sys ∧
    (w.note m).io = w.io ∧ (w.note m).fdLog = w.fdLog := by
  simp [note]

@[simp] theorem choose_choices (i : ℕ) : (w.choose i).choices = w.choices ++ [i] := rfl

@[simp] theorem choose_frame (i : ℕ) :
    (w.choose i).ln = w.ln ∧ (w.choose i).heap = w.heap ∧ (w.choose i).conns = w.conns ∧
    (w.choose i).loop = w.loop ∧ (w.choose i).fds = w.fds ∧ (w.choose i).sys = w.sys ∧
    (w.choose i).io = w.io ∧ (w.choose i).fdLog = w.fdLog ∧ (w.choose i).log = w.log := by
  simp [choose]

@[simp] theorem transfer_io (t : Transfer) : (w.transfer t).io = w.io ++ [t] := rfl

@[simp] theorem transfer_frame (t : Transfer) :
    (w.transfer t).ln = w.ln ∧ (w.transfer t).heap = w.heap ∧
    (w.transfer t).conns = w.conns ∧ (w.transfer t).loop = w.loop ∧
    (w.transfer t).fds = w.fds ∧ (w.transfer t).sys = w.sys ∧
    (w.transfer t).fdLog = w.fdLog ∧ (w.transfer t).log = w.log := by
  simp [transfer]

@[simp] theorem setSys_sys (t : Answers) : (w.setSys t).sys = t := rfl

@[simp] theorem setSys_frame (t : Answers) :
    (w.setSys t).ln = w.ln ∧ (w.setSys t).heap = w.heap ∧ (w.setSys t).conns = w.conns ∧
    (w.setSys t).loop = w.loop ∧ (w.setSys t).fds = w.fds ∧ (w.setSys t).io = w.io ∧
    (w.setSys t).fdLog = w.fdLog ∧ (w.setSys t).log = w.log := by
  simp [setSys]

@[simp] theorem setSys_self : w.setSys w.sys = w := rfl

@[simp] theorem setHeap_heap (h : Heap) : (w.setHeap h).heap = h := rfl

@[simp] theorem setHeap_frame (h : Heap) :
    (w.setHeap h).ln = w.ln ∧ (w.setHeap h).conns = w.conns ∧
    (w.setHeap h).loop = w.loop ∧ (w.setHeap h).fds = w.fds ∧
    (w.setHeap h).sys = w.sys ∧ (w.setHeap h).io = w.io ∧
    (w.setHeap h).fdLog = w.fdLog ∧ (w.setHeap h).log = w.log := by
  simp [setHeap]

@[simp] theorem setHeap_self : w.setHeap w.heap = w := rfl

end frames

end World

def onHeap {α : Type} (x : Pool α) : Callback α := fun w =>
  match x.run w.heap with
  | .ok a h => .ok a (w.setHeap h)
  | .error e h => .error e (w.setHeap h)

def conn (c : ConnId) : Callback XtpConn := do
  match (← get).conns.get c with
  | some r => pure r
  | none => throw .useAfterFree

def setConn (c : ConnId) (f : XtpConn → XtpConn) : Callback Unit := do
  let r ← conn c
  modify (·.putConn c (f r))

def evStart (c : ConnId) (k : Watcher) : Callback Unit := modify (·.setWatcher c k true)
def evStop (c : ConnId) (k : Watcher) : Callback Unit := modify (·.setWatcher c k false)

/-- `ev_timer_again`: a timer without a period is stopped, any other one is
started or put off. -/
def evTimerAgain (c : ConnId) (k : Watcher) (period : ℤ) : Callback Unit :=
  modify (·.setWatcher c k (period ≠ 0))

/-- The elements before and after `c` in the queue, whose link fields an
unlinking of `c` writes. -/
def neighbours (q : List ConnId) (c : ConnId) : List ConnId :=
  (q.takeWhile (· ≠ c)).getLast?.toList ++ ((q.dropWhile (· ≠ c)).drop 1).head?.toList

/-- Writes through a link field of each of these records. -/
def touch : List ConnId → Callback Unit
  | [] => pure ()
  | c::cs => do
    let _ ← conn c
    touch cs

/-- `TAILQ_INSERT_TAIL` on `cq_waiting`. The last element's link is written. -/
def tailqInsertTail (c : ConnId) : Callback Unit := do
  let q := (← get).ln.cqWaiting
  touch (c::q.getLast?.toList)
  modify (·.setLn fun ln => { ln with cqWaiting := q ++ [c] })

/-- `TAILQ_REMOVE` on `cq_waiting`. -/
def tailqRemove (c : ConnId) : Callback Unit := do
  let q := (← get).ln.cqWaiting
  if c ∉ q then throw .wildPointer
  touch (c::neighbours q c)
  modify (·.setLn fun ln => { ln with cqWaiting := q.erase c })

end TcpFunnel.Connection
