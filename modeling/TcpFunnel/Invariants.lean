import TcpFunnel.Actions

/-!
# The invariants of a stage

Four groups: the phases and watchers of the records, the waiting queue, the
ownership and shape of the buffers, and the descriptors. The connection a
callback is closing is exempt from some clauses until it is settled.
-/

set_option autoImplicit false

namespace TcpFunnel.Invariants
open TcpFunnel.BufferPool TcpFunnel.Connection TcpFunnel.Upstream TcpFunnel.Actions

structure Phase (busy : Busy) (peers : ℕ) (c : ConnId) (r : XtpConn) (on : Watcher → Bool) :
    Prop where
  status : r.status = .none ∨ r.status = .waiting ∨ r.status = .working ∨ r.status = .close ∨
    (r.status = .timeout ∧ busy = .closing c)
  upcStatus : r.upcStatus = .none ∨ r.upcStatus = .connect ∨ r.upcStatus = .working ∨
    r.upcStatus = .close
  ofOpen : r.isOpen → r.status = .working ∨ r.status = .timeout
  ofNone : r.status = .none → r.upcStatus = .none
  ofWorking : r.status = .working → r.upcStatus ≠ .none
  upcf : r.upcStatus ≠ .none → ∃ i < peers, r.upcf = some i
  eRecv : on .eRecv = decide (r.status ≠ .close)
  eSend : on .eSend = true → r.status ≠ .close
  upcERecv : on .upcERecv = r.isOpen
  upcEConnected : on .upcEConnected = decide (r.upcStatus = .connect)
  upcESend : on .upcESend = true → r.upcStatus = .working
  upcETimer : on .upcETimer = true → r.isOpen
  eTimer : on .eTimer = true ∨ busy = .closing c

def Busy.about : Busy → Option ConnId
  | .idle => none
  | .filling c _ _ => some c
  | .losing c _ => some c
  | .closing c => some c
  | .over => none

structure Records (s : Stage) : Prop where
  wellFormed : s.w.conns.WellFormed
  absent : ∀ c, s.w.conns.get c = none → ∀ k, s.w.loop c k = false
  phase : ∀ c r, s.w.conns.get c = some r →
    Phase s.busy s.w.ln.srvcf.upstream.length c r (s.w.loop c)
  live : ∀ c, Busy.about s.busy = some c → s.w.conns.get c ≠ none
  readable : ∀ c p full, s.busy = .filling c p full → ∀ r, s.w.conns.get c = some r → Readable r p

structure Queue (s : Stage) : Prop where
  nodup : s.w.ln.cqWaiting.Nodup
  num : s.w.ln.cqWaitingNum = s.w.ln.cqWaiting.length
  lt : ∀ c ∈ s.w.ln.cqWaiting, c < s.w.conns.next
  mem : ∀ c ∈ s.w.ln.cqWaiting, ∀ r, s.w.conns.get c = some r →
    (r.status = .waiting ∨ s.busy = .closing c) ∧ r.isOpen = false
  all : ∀ c r, s.w.conns.get c = some r → r.status = .waiting → c ∈ s.w.ln.cqWaiting
  due : s.due = true → ∀ c, s.busy = .closing c → c ∉ s.w.ln.cqWaiting

/-- A buffer that the pool has set up: its window is the whole block behind
the header. -/
structure PoolBuf (bp : XtpBufPool) (r : XtpBuf) : Prop where
  back : r.bp = true
  fits : r.size ≤ bp.size

structure PipeBuf (bp : XtpBufPool) (r : XtpBuf) : Prop extends PoolBuf bp r where
  startAt : r.start = bp.offset
  endAt : r.endPos = (bp.size-1).toNat
  startPos : r.start ≤ r.pos
  posLast : r.pos ≤ r.last
  lastEnd : r.last ≤ r.endPos

/-- Every buffer of a pipe but the last is full, every one but the first is
unread, and the last has room unless the pipe is about to be extended. -/
structure Shape (h : Heap) (full : Bool) (bs : List BufId) : Prop where
  each : ∀ b ∈ bs, ∃ r, h.bufs.get b = some r ∧ PipeBuf h.bp r
  front : ∀ b ∈ bs.dropLast, ∀ r, h.bufs.get b = some r → r.last = r.endPos
  tail : ∀ b, bs.getLast? = some b → ∀ r, h.bufs.get b = some r →
    if full then r.last = r.endPos else r.last < r.endPos
  unread : ∀ b ∈ bs.tail, ∀ r, h.bufs.get b = some r → r.pos = r.start

def Busy.full (busy : Busy) (c : ConnId) (p : Pipe) : Bool := busy = .filling c p true

structure Buffers (s : Stage) : Prop where
  room : s.w.heap.bp.offset < (s.w.heap.bp.size-1).toNat
  small : s.w.heap.bp.size < 2147483648
  wellFormed : s.w.heap.bufs.WellFormed
  headNodup : s.w.heap.bp.head.Nodup
  head : ∀ b ∈ s.w.heap.bp.head, ∃ r, s.w.heap.bufs.get b = some r ∧ PoolBuf s.w.heap.bp r
  apart : ∀ c p, ∀ b ∈ s.w.pipes c p, b ∉ s.w.heap.bp.head
  nodup : ∀ c p, (s.w.pipes c p).Nodup
  disjoint : ∀ c p d q b, b ∈ s.w.pipes c p → b ∈ s.w.pipes d q → c = d ∧ p = q
  shape : ∀ c p, Shape s.w.heap (Busy.full s.busy c p) (s.w.pipes c p)

structure Descriptors (s : Stage) : Prop where
  nonneg : ∀ fd k, s.w.fds fd = some k → 0 ≤ fd
  client : ∀ c r, s.w.conns.get c = some r → r.status ≠ .close →
    s.w.fds r.fd = some ⟨c, .client⟩ ∨ r.fd = -1
  upstream : ∀ c r, s.w.conns.get c = some r → r.isOpen → s.w.fds r.upcFd = some ⟨c, .upstream⟩

structure Inv (s : Stage) : Prop where
  records : Records s
  queue : Queue s
  buffers : Buffers s
  descriptors : Descriptors s

end TcpFunnel.Invariants
