import TcpFunnel.Connection
import TcpFunnel.Library.Memory

/-!
# The system calls

Each call takes the next answer supplied for it. An answer no kernel can give
in the present state (more bytes than were asked for, a descriptor already in
use, data from a descriptor that is not open) leaves the call `pending`, as
does the lack of an answer.
-/

set_option autoImplicit false

namespace TcpFunnel.SystemCalls
open TcpFunnel.BufferPool TcpFunnel.Connection

def answer {γ : Type} (read : Answers → List γ) (keep : Answers → List γ → Answers) :
    Callback γ := do
  match read (← get).sys with
  | [] => throw .pending
  | a::rest =>
    modify fun w => w.setSys (keep w.sys rest)
    pure a

def nextAccept : Callback AcceptAnswer := answer (·.accepts) fun t l => { t with accepts := l }
def nextRecv : Callback RecvAnswer := answer (·.recvs) fun t l => { t with recvs := l }
def nextSend : Callback SendAnswer := answer (·.sends) fun t l => { t with sends := l }
def nextSocket : Callback (Option ℤ) := answer (·.sockets) fun t l => { t with sockets := l }
def nextFcntl : Callback Bool := answer (·.fcntls) fun t l => { t with fcntls := l }
def nextConnect : Callback ConnectAnswer := answer (·.connects) fun t l => { t with connects := l }
def nextSockopt : Callback SockoptAnswer := answer (·.sockopts) fun t l => { t with sockopts := l }

/-- A descriptor the kernel may hand out: not negative and not open. -/
def Fresh (w : World) (fd : ℤ) : Prop := 0 ≤ fd ∧ w.fds fd = none

instance (w : World) (fd : ℤ) : Decidable (Fresh w fd) :=
  inferInstanceAs (Decidable (_ ∧ _))

/-- `accept` on the listening socket, for the record that would be created
next. -/
def accept : Callback AcceptAnswer := do
  match ← nextAccept with
  | .fd newfd =>
    let w ← get
    if ¬ Fresh w newfd then throw .pending
    modify (·.openFd newfd ⟨w.conns.next, .client⟩)
    pure (.fd newfd)
  | a => pure a

/-- `socket` on behalf of a record; `-1` when it fails. -/
def socket (c : ConnId) : Callback ℤ := do
  match ← nextSocket with
  | some fd =>
    if ¬ Fresh (← get) fd then throw .pending
    modify (·.openFd fd ⟨c, .upstream⟩)
    pure fd
  | none => pure (-1)

def close (fd : ℤ) : Callback Unit := modify (·.closeFd fd)

/-- `recv(fd, buf + off, n, 0)`: the received bytes land in the block. -/
def recv (fd : ℤ) (b : BufId) (off n : ℕ) : Callback RecvAnswer := do
  let a ← nextRecv
  match a with
  | .got bytes =>
    match (← get).fds fd with
    | none => throw .pending
    | some s =>
      if n < bytes.length then throw .pending
      let r ← onHeap (buf b)
      modify fun w => w.setHeap { w.heap with
        bufs := w.heap.bufs.set b { r with data := Memory.write r.data off bytes } }
      modify (·.transfer ⟨s, .recv, bytes⟩)
      pure a
  | _ => pure a

/-- `send(fd, buf + off, n, 0)`: the accepted bytes are read from the block. -/
def send (fd : ℤ) (b : BufId) (off n : ℕ) : Callback SendAnswer := do
  let a ← nextSend
  match a with
  | .sent k =>
    match (← get).fds fd with
    | none => throw .pending
    | some s =>
      if n < k then throw .pending
      let r ← onHeap (buf b)
      modify (·.transfer ⟨s, .send, Memory.read r.data off k⟩)
      pure a
  | _ => pure a

end TcpFunnel.SystemCalls
