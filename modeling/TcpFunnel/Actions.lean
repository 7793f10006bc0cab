import Mathlib.Algebra.GroupWithZero.Nat
import TcpFunnel.EventLoop
import TcpFunnel.Library.Simulation

/-!
# The atomic actions of the proxy

Every callback is a sequence of the actions below, each of which takes the
proxy from one consistent state to another: a buffer is linked, bytes enter
or leave a pipe, a client is queued, promoted or closed. A stage is a state
of the proxy together with what the running callback still owes: the
connection it is busy with, whether the scheduler is about to run, and the
failed promotions and other incidents met so far. Which actions may happen is
said here once, and every invariant is proved from it.
-/

set_option autoImplicit false

namespace TcpFunnel.Actions
open TcpFunnel.BufferPool TcpFunnel.Connection TcpFunnel.Upstream TcpFunnel.Access
open TcpFunnel.CInt

def source : Pipe → Side
  | .pipe1 => .client
  | .pipe2 => .upstream

def target : Pipe → Side
  | .pipe1 => .upstream
  | .pipe2 => .client

def receipts (s : Sock) (chunks : List (List UInt8)) : List Transfer :=
  chunks.map fun bytes => ⟨s, .recv, bytes⟩

def sends (s : Sock) (data : ℕ → UInt8) : ℕ → List ℕ → List Transfer
  | _, [] => []
  | off, k::ks => ⟨s, .send, Memory.read data off k⟩ :: sends s data (off+k) ks

def setBlock (h : Heap) (b : BufId) (rb : XtpBuf) : Heap := { h with bufs := h.bufs.set b rb }

/-- Bytes received behind `last`, which has not moved yet. -/
def received (w : World) (c : ConnId) (p : Pipe) (b : BufId) (rb : XtpBuf)
    (chunks : List (List UInt8)) : World :=
  { w with
    heap := setBlock w.heap b { rb with data := Memory.write rb.data rb.last chunks.flatten }
    io := w.io ++ receipts ⟨c, source p⟩ chunks }

def filled (w : World) (c : ConnId) (p : Pipe) (b : BufId) (rb : XtpBuf)
    (chunks : List (List UInt8)) : World :=
  { w with
    heap := setBlock w.heap b { rb with
      data := Memory.write rb.data rb.last chunks.flatten, last := rb.last+chunks.flatten.length }
    io := w.io ++ receipts ⟨c, source p⟩ chunks }

def delivered (w : World) (c : ConnId) (p : Pipe) (rb : XtpBuf) (ks : List ℕ) : World :=
  { w with io := w.io ++ sends ⟨c, target p⟩ rb.data rb.pos ks }

def drained (w : World) (c : ConnId) (p : Pipe) (b : BufId) (rb : XtpBuf) (ks : List ℕ) : World :=
  { w with
    heap := setBlock w.heap b { rb with pos := rb.pos+ks.sum }
    io := w.io ++ sends ⟨c, target p⟩ rb.data rb.pos ks }

def linked (w : World) (c : ConnId) (p : Pipe) (r : XtpConn) (b : BufId) (rest : List BufId)
    (rb : XtpBuf) : World :=
  (w.setHeap { w.heap with
    bp := { w.heap.bp with head := rest, n := cInt (w.heap.bp.n-1) }
    bufs := w.heap.bufs.set b (rewound rb w.heap.bp) }).putConn c (r.setPipe p (r.pipe p ++ [b]))

def unlinked (w : World) (c : ConnId) (p : Pipe) (r : XtpConn) (b : BufId) : World :=
  (w.putConn c (r.setPipe p (r.pipe p).tail)).setHeap { w.heap with
    bp := { w.heap.bp with head := b::w.heap.bp.head, n := cInt (w.heap.bp.n+1) } }

def enqueued (w : World) (c : ConnId) (r : XtpConn) : World :=
  ((w.setLn fun ln =>
    { ln with cqWaiting := ln.cqWaiting ++ [c], cqWaitingNum := ln.cqWaitingNum+1 }).putConn c
    { r with status := .waiting }).note (.inserted c)

def chosen (w : World) (i : ℕ) : World :=
  (w.setLn fun ln => { ln with srvcf := { ln.srvcf with upstreamIndex := i+1 } }).choose i

def dialled (w : World) (c : ConnId) (i : ℕ) (fd : ℤ) : World :=
  ((((chosen w i).openFd fd ⟨c, .upstream⟩).setWatcher c .upcERecv true).setWatcher c
    .upcEConnected true).setWatcher c .upcETimer true

def dialledConn (r : XtpConn) (i : ℕ) (fd : ℤ) : XtpConn :=
  { r with
    upcFd := fd, upcStatus := .connect, upcTimerRepeat := connConnectTimeout, upcf := some i }

def promoted (w : World) (c : ConnId) (r : XtpConn) (i : ℕ) (fd : ℤ) : World :=
  (((dialled w c i fd).setLn fun ln => { ln with
    cqWaiting := ln.cqWaiting.erase c, cqWaitingNum := ln.cqWaitingNum-1,
    workingNum := ln.workingNum+1 }).putConn c
    { dialledConn r i fd with status := .working }).note (.promoted c)

def closedUpstream (w : World) (c : ConnId) (r : XtpConn) : World :=
  let w1 := ((((w.setWatcher c .upcERecv false).setWatcher c .upcESend false).setWatcher c
    .upcEConnected false).setWatcher c .upcETimer false).closeFd r.upcFd
  let w2 := w1.putConn c { r with upcStatus := .close }
  let w3 := if r.status ≠ .close then w2.setWatcher c .eSend true else w2
  (w3.setLn fun ln => { ln with workingNum := ln.workingNum-1 }).note (.released c)

/-- The promotion ends before `connect`; a socket that was obtained stays open. -/
def abandoned (w : World) (c : ConnId) (r : XtpConn) (i : ℕ) (leaked : Option ℤ) : World :=
  (leaked.elim (chosen w i) fun fd => (chosen w i).openFd fd ⟨c, .upstream⟩).putConn c
    { r with upcf := some i }

def connected (w : World) (c : ConnId) (r : XtpConn) (timeout : ℤ) : World :=
  (((w.setWatcher c .upcEConnected false).setWatcher c .upcESend true).setWatcher c .upcETimer
    (10*timeout ≠ 0)).putConn c { r with upcTimerRepeat := 10*timeout, upcStatus := .working }

def closedClient (w : World) (c : ConnId) (r : XtpConn) : World :=
  let w1 := ((w.setWatcher c .eRecv false).setWatcher c .eSend false).closeFd r.fd
  let w2 := if r.status = .waiting then w1.setLn fun ln => { ln with
      cqWaiting := ln.cqWaiting.erase c, cqWaitingNum := ln.cqWaitingNum-1 } else w1
  ((w2.setWatcher c .eTimer true).putConn c
    { r with timerRepeat := connFreeTimeout, status := .close }).setLn
    (fun ln => { ln with cCount := ln.cCount-1 }) |>.note (.closed c)

def freed (w : World) (c : ConnId) : World := { w with conns := w.conns.free c }

/-- After `accept`, whose error is the descriptor `-1`. -/
def accepted (w : World) (fd : ℤ) : World :=
  if fd = -1 then w else w.openFd fd ⟨w.conns.next, .client⟩

def admitted (w : World) (fd : ℤ) : World :=
  (({ w with conns := w.conns.push (newConn fd w.ln.timeout) }.setWatcher w.conns.next .eRecv
    true).setWatcher w.conns.next .eTimer true).setLn fun ln => { ln with cCount := ln.cCount+1 }

section frames

variable (w : World) (c : ConnId) (r : XtpConn) (p : Pipe)

@[simp] theorem filled_frame (b : BufId) (rb : XtpBuf) (chunks : List (List UInt8)) :
    (filled w c p b rb chunks).ln = w.ln ∧ (filled w c p b rb chunks).conns = w.conns ∧
    (filled w c p b rb chunks).loop = w.loop ∧ (filled w c p b rb chunks).fds = w.fds ∧
    (filled w c p b rb chunks).sys = w.sys ∧ (filled w c p b rb chunks).log = w.log ∧
    (filled w c p b rb chunks).fdLog = w.fdLog := by
  simp [filled]

@[simp] theorem received_frame (b : BufId) (rb : XtpBuf) (chunks : List (List UInt8)) :
    (received w c p b rb chunks).ln = w.ln ∧ (received w c p b rb chunks).conns = w.conns ∧
    (received w c p b rb chunks).loop = w.loop ∧ (received w c p b rb chunks).fds = w.fds ∧
    (received w c p b rb chunks).sys = w.sys ∧ (received w c p b rb chunks).log = w.log ∧
    (received w c p b rb chunks).fdLog = w.fdLog := by
  simp [received]

@[simp] theorem drained_frame (b : BufId) (rb : XtpBuf) (ks : List ℕ) :
    (drained w c p b rb ks).ln = w.ln ∧ (drained w c p b rb ks).conns = w.conns ∧
    (drained w c p b rb ks).loop = w.loop ∧ (drained w c p b rb ks).fds = w.fds ∧
    (drained w c p b rb ks).sys = w.sys ∧ (drained w c p b rb ks).log = w.log ∧
    (drained w c p b rb ks).fdLog = w.fdLog := by
  simp [drained]

@[simp] theorem delivered_frame (rb : XtpBuf) (ks : List ℕ) :
    (delivered w c p rb ks).ln = w.ln ∧ (delivered w c p rb ks).conns = w.conns ∧
    (delivered w c p rb ks).loop = w.loop ∧ (delivered w c p rb ks).fds = w.fds ∧
    (delivered w c p rb ks).sys = w.sys ∧ (delivered w c p rb ks).log = w.log ∧
    (delivered w c p rb ks).heap = w.heap ∧ (delivered w c p rb ks).fdLog = w.fdLog := by
  simp [delivered]

@[simp] theorem linked_conns (b : BufId) (rest : List BufId) (rb : XtpBuf) :
    (linked w c p r b rest rb).conns = w.conns.set c (r.setPipe p (r.pipe p ++ [b])) := rfl

@[simp] theorem linked_frame (b : BufId) (rest : List BufId) (rb : XtpBuf) :
    (linked w c p r b rest rb).ln = w.ln ∧ (linked w c p r b rest rb).loop = w.loop ∧
    (linked w c p r b rest rb).fds = w.fds ∧ (linked w c p r b rest rb).sys = w.sys ∧
    (linked w c p r b rest rb).io = w.io ∧ (linked w c p r b rest rb).log = w.log := by
  simp [linked]

@[simp] theorem unlinked_conns (b : BufId) :
    (unlinked w c p r b).conns = w.conns.set c (r.setPipe p (r.pipe p).tail) := rfl

@[simp] theorem unlinked_frame (b : BufId) :
    (unlinked w c p r b).ln = w.ln ∧ (unlinked w c p r b).loop = w.loop ∧
    (unlinked w c p r b).fds = w.fds ∧ (unlinked w c p r b).sys = w.sys ∧
    (unlinked w c p r b).io = w.io ∧ (unlinked w c p r b).log = w.log := by
  simp [unlinked]

@[simp] theorem chosen_frame (i : ℕ) :
    (chosen w i).ln.cqWaiting = w.ln.cqWaiting ∧
    (chosen w i).ln.cqWaitingNum = w.ln.cqWaitingNum ∧
    (chosen w i).ln.workingNum = w.ln.workingNum ∧
    (chosen w i).ln.srvcf.workingNumMax = w.ln.srvcf.workingNumMax ∧
    (chosen w i).ln.srvcf.upstream = w.ln.srvcf.upstream ∧
    (chosen w i).heap = w.heap ∧ (chosen w i).conns = w.conns ∧
    (chosen w i).loop = w.loop ∧ (chosen w i).fds = w.fds ∧ (chosen w i).sys = w.sys ∧
    (chosen w i).io = w.io ∧ (chosen w i).log = w.log := by
  simp [chosen]

@[simp] theorem dialled_loop (i : ℕ) (fd : ℤ) (d : ConnId) (k : Watcher) :
    (dialled w c i fd).loop d k =
      if d = c ∧ (k = .upcERecv ∨ k = .upcEConnected ∨ k = .upcETimer) then true
      else w.loop d k := by
  cases k <;> by_cases h : d = c <;> simp [dialled, h]

@[simp] theorem dialled_fds (i : ℕ) (fd g : ℤ) :
    (dialled w c i fd).fds g = if g = fd then some ⟨c, .upstream⟩ else w.fds g := rfl

@[simp] theorem dialled_frame (i : ℕ) (fd : ℤ) :
    (dialled w c i fd).ln = (chosen w i).ln ∧ (dialled w c i fd).heap = w.heap ∧
    (dialled w c i fd).conns = w.conns ∧ (dialled w c i fd).sys = w.sys ∧
    (dialled w c i fd).io = w.io ∧ (dialled w c i fd).log = w.log := by
  simp [dialled]

@[simp] theorem promoted_conns (i : ℕ) (fd : ℤ) :
    (promoted w c r i fd).conns = w.conns.set c { dialledConn r i fd with status := .working } := by
  simp [promoted]

@[simp] theorem promoted_ln (i : ℕ) (fd : ℤ) :
    (promoted w c r i fd).ln = { (chosen w i).ln with
      cqWaiting := w.ln.cqWaiting.erase c, cqWaitingNum := w.ln.cqWaitingNum-1,
      workingNum := w.ln.workingNum+1 } := by
  simp [promoted]

@[simp] theorem promoted_frame (i : ℕ) (fd : ℤ) :
    (promoted w c r i fd).heap = w.heap ∧ (promoted w c r i fd).loop = (dialled w c i fd).loop ∧
    (promoted w c r i fd).fds = (dialled w c i fd).fds ∧ (promoted w c r i fd).sys = w.sys ∧
    (promoted w c r i fd).io = w.io ∧ (promoted w c r i fd).log = w.log ++ [.promoted c] := by
  simp [promoted]

@[simp] theorem enqueued_conns :
    (enqueued w c r).conns = w.conns.set c { r with status := .waiting } := rfl

@[simp] theorem enqueued_ln :
    (enqueued w c r).ln = { w.ln with
      cqWaiting := w.ln.cqWaiting ++ [c], cqWaitingNum := w.ln.cqWaitingNum+1 } := by
  simp [enqueued]

@[simp] theorem enqueued_frame :
    (enqueued w c r).heap = w.heap ∧ (enqueued w c r).loop = w.loop ∧
    (enqueued w c r).fds = w.fds ∧ (enqueued w c r).sys = w.sys ∧
    (enqueued w c r).io = w.io ∧ (enqueued w c r).log = w.log ++ [.inserted c] := by
  simp [enqueued]

@[simp] theorem closedUpstream_conns :
    (closedUpstream w c r).conns = w.conns.set c { r with upcStatus := .close } := by
  simp only [closedUpstream]
  split <;> rfl

@[simp] theorem closedUpstream_loop (d : ConnId) (k : Watcher) :
    (closedUpstream w c r).loop d k =
      if d = c ∧ (k = .upcERecv ∨ k = .upcESend ∨ k = .upcEConnected ∨ k = .upcETimer) then false
      else if d = c ∧ k = .eSend ∧ r.status ≠ .close then true else w.loop d k := by
  simp only [closedUpstream]
  split <;> cases k <;> by_cases h : d = c <;> simp_all

@[simp] theorem closedUpstream_fds (g : ℤ) :
    (closedUpstream w c r).fds g = if g = r.upcFd then none else w.fds g := by
  simp only [closedUpstream]
  split <;> rfl

@[simp] theorem closedUpstream_frame :
    (closedUpstream w c r).ln = { w.ln with workingNum := w.ln.workingNum-1 } ∧
    (closedUpstream w c r).heap = w.heap ∧ (closedUpstream w c r).sys = w.sys ∧
    (closedUpstream w c r).io = w.io ∧ (closedUpstream w c r).log = w.log ++ [.released c] := by
  simp only [closedUpstream]
  split <;> simp

@[simp] theorem abandoned_conns (i : ℕ) (leaked : Option ℤ) :
    (abandoned w c r i leaked).conns = w.conns.set c { r with upcf := some i } := by
  cases leaked <;> simp [abandoned]

@[simp] theorem abandoned_fds (i : ℕ) (leaked : Option ℤ) (g : ℤ) :
    (abandoned w c r i leaked).fds g =
      if leaked = some g then some ⟨c, .upstream⟩ else w.fds g := by
  cases leaked <;> simp [abandoned, eq_comm]

@[simp] theorem abandoned_frame (i : ℕ) (leaked : Option ℤ) :
    (abandoned w c r i leaked).ln = (chosen w i).ln ∧
    (abandoned w c r i leaked).heap = w.heap ∧ (abandoned w c r i leaked).loop = w.loop ∧
    (abandoned w c r i leaked).sys = w.sys ∧ (abandoned w c r i leaked).io = w.io ∧
    (abandoned w c r i leaked).log = w.log := by
  cases leaked <;> simp [abandoned]

@[simp] theorem connected_conns (timeout : ℤ) :
    (connected w c r timeout).conns =
      w.conns.set c { r with upcTimerRepeat := 10*timeout, upcStatus := .working } := rfl

@[simp] theorem connected_loop (timeout : ℤ) (d : ConnId) (k : Watcher) :
    (connected w c r timeout).loop d k =
      if d = c ∧ k = .upcEConnected then false else if d = c ∧ k = .upcESend then true
      else if d = c ∧ k = .upcETimer then decide (10*timeout ≠ 0) else w.loop d k := by
  cases k <;> by_cases h : d = c <;> simp [connected, h]

@[simp] theorem connected_frame (timeout : ℤ) :
    (connected w c r timeout).ln = w.ln ∧ (connected w c r timeout).heap = w.heap ∧
    (connected w c r timeout).fds = w.fds ∧ (connected w c r timeout).sys = w.sys ∧
    (connected w c r timeout).io = w.io ∧ (connected w c r timeout).log = w.log := by
  simp [connected]

@[simp] theorem closedClient_conns :
    (closedClient w c r).conns =
      w.conns.set c { r with timerRepeat := connFreeTimeout, status := .close } := by
  simp only [closedClient]
  split <;> rfl

@[simp] theorem closedClient_ln :
    (closedClient w c r).ln = { w.ln with
      cqWaiting := if r.status = .waiting then w.ln.cqWaiting.erase c else w.ln.cqWaiting
      cqWaitingNum := if r.status = .waiting then w.ln.cqWaitingNum-1 else w.ln.cqWaitingNum
      cCount := w.ln.cCount-1 } := by
  simp only [closedClient]
  split <;> simp_all

@[simp] theorem closedClient_loop (d : ConnId) (k : Watcher) :
    (closedClient w c r).loop d k =
      if d = c ∧ (k = .eRecv ∨ k = .eSend) then false
      else if d = c ∧ k = .eTimer then true else w.loop d k := by
  simp only [closedClient]
  split <;> cases k <;> by_cases h : d = c <;> simp_all

@[simp] theorem closedClient_fds (g : ℤ) :
    (closedClient w c r).fds g = if g = r.fd then none else w.fds g := by
  simp only [closedClient]
  split <;> rfl

@[simp] theorem closedClient_frame :
    (closedClient w c r).heap = w.heap ∧ (closedClient w c r).sys = w.sys ∧
    (closedClient w c r).io = w.io ∧ (closedClient w c r).log = w.log ++ [.closed c] := by
  simp only [closedClient]
  split <;> simp

@[simp] theorem freed_conns : (freed w c).conns = w.conns.free c := rfl

@[simp] theorem freed_frame :
    (freed w c).ln = w.ln ∧ (freed w c).heap = w.heap ∧ (freed w c).loop = w.loop ∧
    (freed w c).fds = w.fds ∧ (freed w c).sys = w.sys ∧ (freed w c).io = w.io ∧
    (freed w c).log = w.log := by
  simp [freed]

@[simp] theorem accepted_fds (fd g : ℤ) :
    (accepted w fd).fds g =
      if g = fd ∧ fd ≠ -1 then some ⟨w.conns.next, .client⟩ else w.fds g := by
  by_cases h : fd = -1 <;> simp [accepted, h]

@[simp] theorem accepted_frame (fd : ℤ) :
    (accepted w fd).ln = w.ln ∧ (accepted w fd).heap = w.heap ∧
    (accepted w fd).conns = w.conns ∧ (accepted w fd).loop = w.loop ∧
    (accepted w fd).sys = w.sys ∧ (accepted w fd).io = w.io ∧ (accepted w fd).log = w.log := by
  by_cases h : fd = -1 <;> simp [accepted, h]

@[simp] theorem admitted_conns (fd : ℤ) :
    (admitted w fd).conns = w.conns.push (newConn fd w.ln.timeout) := rfl

@[simp] theorem admitted_loop (fd : ℤ) (d : ConnId) (k : Watcher) :
    (admitted w fd).loop d k =
      if d = w.conns.next ∧ (k = .eRecv ∨ k = .eTimer) then true else w.loop d k := by
  cases k <;> by_cases h : d = w.conns.next <;> simp [admitted, h]

@[simp] theorem admitted_frame (fd : ℤ) :
    (admitted w fd).ln = { w.ln with cCount := w.ln.cCount+1 } ∧
    (admitted w fd).heap = w.heap ∧ (admitted w fd).fds = w.fds ∧
    (admitted w fd).sys = w.sys ∧ (admitted w fd).io = w.io ∧ (admitted w fd).log = w.log := by
  simp [admitted]

end frames

/-- What the running callback is in the middle of. It is over once it has
closed or freed its connection. -/
inductive Busy where
  | idle
  | filling (c : ConnId) (p : Pipe) (full : Bool)
  | losing (c : ConnId) (p : Pipe)
  | closing (c : ConnId)
  | over
  deriving DecidableEq, Repr

/-- A promotion that failed: in `socket`, in `fcntl`, which leaves the socket
open, or in `connect`. -/
inductive Failure where
  | noSocket (c : ConnId)
  | leaked (c : ConnId)
  | refused (c : ConnId)
  deriving DecidableEq, Repr

inductive Incident where
  | timedOutWaiting (c : ConnId)
  | bytesLost (c : ConnId)
  | stalled (c : ConnId)
  | noClient
  deriving DecidableEq, Repr

structure Stage where
  w : World
  busy : Busy
  due : Bool
  failures : List Failure
  incidents : List Incident

def window (h : Heap) (b : BufId) : List UInt8 :=
  match h.bufs.get b with
  | some r => Memory.read r.data r.pos (r.last-r.pos)
  | none => []

def unsent (w : World) (c : ConnId) (p : Pipe) : List UInt8 := (w.pipes c p).flatMap (window w.heap)

structure Shrinks (t t' : Answers) : Prop where
  accepts : t'.accepts <:+ t.accepts
  recvs : t'.recvs <:+ t.recvs
  sends : t'.sends <:+ t.sends
  sockets : t'.sockets <:+ t.sockets
  fcntls : t'.fcntls <:+ t.fcntls
  connects : t'.connects <:+ t.connects
  sockopts : t'.sockopts <:+ t.sockopts

theorem shrinks_refl (t : Answers) : Shrinks t t :=
  ⟨List.suffix_rfl, List.suffix_rfl, List.suffix_rfl, List.suffix_rfl, List.suffix_rfl,
    List.suffix_rfl, List.suffix_rfl⟩

def FailedWith (t : Answers) : Failure → Prop
  | .noSocket _ => none ∈ t.sockets
  | .leaked _ => false ∈ t.fcntls
  | .refused _ => .error ∈ t.connects

def abandonment (c : ConnId) : Option ℤ → Failure
  | none => .noSocket c
  | some _ => .leaked c

def Readable (r : XtpConn) : Pipe → Prop
  | .pipe1 => r.status ≠ .close
  | .pipe2 => r.isOpen

@[simp] theorem readable_setPipe (r : XtpConn) (p q : Pipe) (bs : List BufId) :
    Readable (r.setPipe p bs) q ↔ Readable r q := by
  cases q <;> simp [Readable]

def Writable (r : XtpConn) : Pipe → Prop
  | .pipe1 => r.upcStatus = .working
  | .pipe2 => r.status ≠ .close

@[simp] theorem writable_setPipe (r : XtpConn) (p q : Pipe) (bs : List BufId) :
    Writable (r.setPipe p bs) q ↔ Writable r q := by
  cases q <;> simp [Writable]

def broken (c : ConnId) (p : Pipe) : Side → Busy
  | .client => .closing c
  | .upstream => .losing c p

def Chosen (w : World) (i : ℕ) : Prop :=
  i < w.ln.srvcf.upstream.length ∧
  i = w.ln.srvcf.upstreamIndex % w.ln.srvcf.upstream.length

def Scheduled (w : World) (c : ConnId) : Prop :=
  w.ln.cqWaiting.head? = some c ∧ w.ln.workingNum < w.ln.srvcf.workingNumMax

def afterClosing : Busy → Busy
  | .closing c => .closing c
  | _ => .idle

/-- The first index is the connection whose callback is running, none while a
client is accepted. -/
inductive Act : Option ConnId → Stage → Stage → Prop
  | answers {o : Option ConnId} {w : World} {b d fs is} (t : Answers) (h : Shrinks w.sys t) :
      Act o ⟨w, b, d, fs, is⟩ ⟨w.setSys t, b, d, fs, is⟩
  | mallocs {o : Option ConnId} {w : World} {b d fs is} (l : List Bool) :
      Act o ⟨w, b, d, fs, is⟩ ⟨w.setHeap { w.heap with mallocs := l }, b, d, fs, is⟩
  | countMax {o : Option ConnId} {w : World} {b d fs is} (h : w.heap.bp.max = 0) :
      Act o ⟨w, b, d, fs, is⟩
        ⟨w.setHeap { w.heap with bp := { w.heap.bp with max := 1 } }, b, d, fs, is⟩
  | addBlock {o : Option ConnId} {w : World} {b d fs is} :
      Act o ⟨w, b, d, fs, is⟩
        ⟨w.setHeap (pushBlock (fun bp => rewound (zeroedBuf bp) bp) w.heap), b, d, fs, is⟩
  | beginFill {w : World} {fs is c r} (p : Pipe) (hr : w.conns.get c = some r)
      (hp : Readable r p) :
      Act (some c) ⟨w, .idle, false, fs, is⟩ ⟨w, .filling c p false, false, fs, is⟩
  | link {w : World} {fs is c p full r b rest rb} (hr : w.conns.get c = some r)
      (hb : w.heap.bp.head = b::rest) (hrb : w.heap.bufs.get b = some rb)
      (hp : r.pipe p = [] ∨ full = true) :
      Act (some c) ⟨w, .filling c p full, false, fs, is⟩
        ⟨linked w c p r b rest rb, .filling c p false, false, fs, is⟩
  | fill {w : World} {fs is c p r b rb} (chunks : List (List UInt8))
      (hr : w.conns.get c = some r) (hb : (r.pipe p).getLast? = some b)
      (hrb : w.heap.bufs.get b = some rb) (hpos : 0 < chunks.flatten.length)
      (hroom : rb.last+chunks.flatten.length ≤ rb.endPos) :
      Act (some c) ⟨w, .filling c p false, false, fs, is⟩
        ⟨filled w c p b rb chunks,
          .filling c p (decide (rb.last+chunks.flatten.length = rb.endPos)), false, fs, is⟩
  | lose {w : World} {fs is c p r b rb} (chunks : List (List UInt8))
      (hr : w.conns.get c = some r) (hb : (r.pipe p).getLast? = some b)
      (hrb : w.heap.bufs.get b = some rb)
      (hroom : rb.last+chunks.flatten.length ≤ rb.endPos) :
      Act (some c) ⟨w, .filling c p false, false, fs, is⟩
        ⟨received w c p b rb chunks, broken c p (source p), false, fs,
          if p = .pipe2 ∧ chunks.flatten ≠ [] then is ++ [.bytesLost c] else is⟩
  | answered {w : World} {fs is c r} (hr : w.conns.get c = some r) :
      Act (some c) ⟨w, .filling c .pipe2 false, false, fs, is⟩
        ⟨w.setWatcher c .eSend true, .idle, false, fs, is⟩
  | requested {w : World} {fs is c r} (hr : w.conns.get c = some r) :
      Act (some c) ⟨w, .filling c .pipe1 false, false, fs, is⟩
        ⟨if r.upcStatus = .working then w.setWatcher c .upcESend true else w, .idle, false, fs, is⟩
  | drain {w : World} {fs is c p r b rb} (ks : List ℕ) (hr : w.conns.get c = some r)
      (hp : Writable r p) (hb : (r.pipe p).head? = some b) (hrb : w.heap.bufs.get b = some rb)
      (hks : rb.pos+ks.sum ≤ rb.last) :
      Act (some c) ⟨w, .idle, false, fs, is⟩ ⟨drained w c p b rb ks, .idle, false, fs, is⟩
  | leak {w : World} {fs is c p r b rb} (ks : List ℕ) (hr : w.conns.get c = some r)
      (hp : Writable r p) (hb : (r.pipe p).head? = some b) (hrb : w.heap.bufs.get b = some rb)
      (hks : rb.pos+ks.sum ≤ rb.last) :
      Act (some c) ⟨w, .idle, false, fs, is⟩
        ⟨delivered w c p rb ks, broken c p (target p), false, fs, is⟩
  | unlink {w : World} {busy fs is c p r b rb} (hr : w.conns.get c = some r)
      (hb : (r.pipe p).head? = some b) (hrb : w.heap.bufs.get b = some rb)
      (hbusy : (busy = .idle ∧ rb.pos = rb.endPos) ∨ busy = .closing c) :
      Act (some c) ⟨w, busy, false, fs, is⟩ ⟨unlinked w c p r b, busy, false, fs, is⟩
  | restClient {w : World} {fs is c r} (hr : w.conns.get c = some r)
      (hempty : unsent w c .pipe2 = []) (hup : r.upcStatus ≠ .close) :
      Act (some c) ⟨w, .idle, false, fs, is⟩ ⟨w.setWatcher c .eSend false, .idle, false, fs, is⟩
  | restUpstream {w : World} {fs is c r} (hr : w.conns.get c = some r) :
      Act (some c) ⟨w, .idle, false, fs, is⟩
        ⟨w.setWatcher c .upcESend false, .idle, false, fs,
          if unsent w c .pipe1 = [] then is else is ++ [.stalled c]⟩
  | enqueue {w : World} {fs is c r} (hr : w.conns.get c = some r) (hs : r.status = .none) :
      Act (some c) ⟨w, .filling c .pipe1 false, false, fs, is⟩
        ⟨enqueued w c r, .filling c .pipe1 false, true, fs, is⟩
  | pass {o : Option ConnId} {w : World} {b fs is}
      (h : w.ln.cqWaiting = [] ∨ w.ln.srvcf.workingNumMax ≤ w.ln.workingNum) :
      Act o ⟨w, b, true, fs, is⟩ ⟨w, b, false, fs, is⟩
  | noSocket {o : Option ConnId} {w : World} {b fs is c r i} (leaked : Option ℤ)
      (hs : Scheduled w c)
      (hi : Chosen w i) (hr : w.conns.get c = some r)
      (hfd : ∀ fd, leaked = some fd → 0 ≤ fd ∧ w.fds fd = none)
      (hfail : FailedWith w.sys (abandonment c leaked)) :
      Act o ⟨w, b, true, fs, is⟩
        ⟨abandoned w c r i leaked, b, false, fs ++ [abandonment c leaked], is⟩
  | promote {o : Option ConnId} {w : World} {b fs is c r i fd} (hs : Scheduled w c)
      (hi : Chosen w i)
      (hr : w.conns.get c = some r) (hfd : 0 ≤ fd ∧ w.fds fd = none) :
      Act o ⟨w, b, true, fs, is⟩ ⟨promoted w c r i fd, b, false, fs, is⟩
  | refuse {o : Option ConnId} {w : World} {b fs is c r i fd} (hs : Scheduled w c) (hi : Chosen w i)
      (hr : w.conns.get c = some r) (hfd : 0 ≤ fd ∧ w.fds fd = none)
      (hfail : ConnectAnswer.error ∈ w.sys.connects) :
      Act o ⟨w, b, true, fs, is⟩
        ⟨closedUpstream (dialled w c i fd) c (dialledConn r i fd), b, true,
          fs ++ [.refused c], is⟩
  | connect {w : World} {fs is c r} (timeout : ℤ) (hr : w.conns.get c = some r)
      (hup : r.upcStatus = .connect) :
      Act (some c) ⟨w, .idle, false, fs, is⟩ ⟨connected w c r timeout, .idle, false, fs, is⟩
  | closeUpstream {w : World} {busy fs is c r} (hr : w.conns.get c = some r)
      (hup : r.isOpen) (hbusy : busy = .idle ∨ (∃ p, busy = .losing c p) ∨ busy = .closing c) :
      Act (some c) ⟨w, busy, false, fs, is⟩ ⟨closedUpstream w c r, afterClosing busy, true, fs, is⟩
  | doom {w : World} {fs is c r} (hr : w.conns.get c = some r) :
      Act (some c) ⟨w, .idle, false, fs, is⟩ ⟨w, .closing c, false, fs, is⟩
  | timeOut {w : World} {fs is c r} (hr : w.conns.get c = some r) (hs : r.status ≠ .close) :
      Act (some c) ⟨w, .idle, false, fs, is⟩
        ⟨w.putConn c { r with status := .timeout }, .closing c, false, fs,
          if r.status = .waiting then is ++ [.timedOutWaiting c] else is⟩
  | closeClient {w : World} {fs is c r} (hr : w.conns.get c = some r) (hs : r.status ≠ .close)
      (hup : r.isOpen = false) :
      Act (some c) ⟨w, .closing c, false, fs, is⟩ ⟨closedClient w c r, .closing c, false, fs, is⟩
  | settle {w : World} {fs is c r} (hr : w.conns.get c = some r) (hs : r.status = .close)
      (hq : c ∉ w.ln.cqWaiting) (htimer : w.loop c .eTimer = true) :
      Act (some c) ⟨w, .closing c, false, fs, is⟩ ⟨w, .over, false, fs, is⟩
  | stopTimer {w : World} {fs is c} :
      Act (some c) ⟨w, .closing c, false, fs, is⟩
        ⟨w.setWatcher c .eTimer false, .closing c, false, fs, is⟩
  | stopUpcTimer {w : World} {b d fs is} (c : ConnId) :
      Act (some c) ⟨w, b, d, fs, is⟩ ⟨w.setWatcher c .upcETimer false, b, d, fs, is⟩
  | free {w : World} {fs is c r} (hr : w.conns.get c = some r) (hs : r.status = .close)
      (hup : r.isOpen = false) (h1 : r.pipe1 = []) (h2 : r.pipe2 = [])
      (htimer : w.loop c .eTimer = false) :
      Act (some c) ⟨w, .closing c, false, fs, is⟩ ⟨freed w c, .over, false, fs, is⟩
  | welcome {w : World} {fs is fd} (hfd : (0 ≤ fd ∧ w.fds fd = none) ∨ fd = -1)
      (hmax : w.ln.cCount < w.ln.srvcf.accessMax) :
      Act none ⟨w, .idle, false, fs, is⟩
        ⟨admitted (accepted w fd) fd, .idle, false, fs, if fd = -1 then is ++ [.noClient] else is⟩
  | turnAway {w : World} {fs is fd} (hfd : (0 ≤ fd ∧ w.fds fd = none) ∨ fd = -1) :
      Act none ⟨w, .idle, false, fs, is⟩
        ⟨(accepted w fd).closeFd fd, .idle, false, fs, if fd = -1 then is ++ [.noClient] else is⟩

abbrev Acts (o : Option ConnId) := Relation.ReflTransGen (Act o)

theorem act_incidents_subset {o : Option ConnId} {s t : Stage} (h : Act o s t) :
    s.incidents ⊆ t.incidents := by
  cases h with
  | lose | restUpstream | timeOut | welcome | turnAway =>
    dsimp only
    split <;> simp
  | _ => exact List.Subset.refl _

theorem act_failures_subset {o : Option ConnId} {s t : Stage} (h : Act o s t) :
    s.failures ⊆ t.failures := by
  cases h with
  | noSocket | refuse => exact List.subset_append_left _ _
  | _ => exact List.Subset.refl _

/-- The state a callback stops in when it does not return: it has the
histories of a stage, and the reason is a missing answer, a freed record left
in the queue, or an empty upstream table. -/
structure Cut (s : Stage) (e : Stop) (w : World) : Prop where
  io : w.io = s.w.io
  log : w.log = s.w.log
  reason : e = .pending ∨
    (e = .useAfterFree ∧ s.busy ≠ .over ∧ ∃ c ∈ s.w.ln.cqWaiting, s.w.conns.get c = none) ∨
    (e = .divisionByZero ∧ s.w.ln.srvcf.upstream = [])

abbrev Sim {α : Type} (o : Option ConnId) :=
  @Simulation.Simulated Stop World Stage α (Act o) Stage.w Cut

end TcpFunnel.Actions
