import TcpFunnel.Access

/-!
# The event loop

`x_access_in`. libev calls the callbacks of active watchers one at a time;
the listening socket's watcher is always active. A timer without a period is
stopped before its callback runs. A step is one callback that returns, having
used exactly the answers that come with it.
-/

set_option autoImplicit false

namespace TcpFunnel.EventLoop
open TcpFunnel.BufferPool TcpFunnel.Connection TcpFunnel.Upstream TcpFunnel.Access

inductive Event where
  | accept
  | fire (c : ConnId) (k : Watcher)
  deriving DecidableEq, Repr

/-- One turn of the loop: the callback that runs and what the kernel and the
allocator answer to it. -/
structure Turn where
  event : Event
  sys : Answers := {}
  mallocs : List Bool := []

def expire (c : ConnId) (k : Watcher) (period : XtpConn → ℤ) : Callback Unit := do
  if period (← conn c) = 0 then evStop c k

def dispatch : Event → Callback Unit
  | .accept => xAcceptCb
  | .fire c .eRecv => xRecvCb c
  | .fire c .eSend => xSendCb c
  | .fire c .eTimer => do
    expire c .eTimer XtpConn.timerRepeat
    xTimeoutCb c
  | .fire c .upcERecv => xUpstreamRecvCb c
  | .fire c .upcESend => xUpstreamSendCb c
  | .fire c .upcEConnected => xUpstreamConnectedCb c
  | .fire c .upcETimer => do
    expire c .upcETimer XtpConn.upcTimerRepeat
    xUpstreamTimeoutCb c

def Active (w : World) : Event → Prop
  | .accept => True
  | .fire c k => w.loop c k = true

instance (w : World) (e : Event) : Decidable (Active w e) := by
  cases e <;> unfold Active <;> infer_instance

def supply (w : World) (t : Turn) : World :=
  { w with sys := t.sys, heap := { w.heap with mallocs := t.mallocs } }

def run (w : World) (t : Turn) : EStateM.Result Stop World Unit :=
  (dispatch t.event).run (supply w t)

def Step (w : World) (t : Turn) (w' : World) : Prop :=
  Active w t.event ∧ run w t = .ok () w' ∧ w'.sys = {} ∧ w'.heap.mallocs = []

def emptyHeap (mallocs : List Bool) : Heap where
  bp := { n := 0, max := 0, size := 0, offset := 0, head := [] }
  bufs := Store.empty
  mallocs := mallocs

def listener (srvcf : XtpSrvconf) (heap : Heap) : World where
  ln := {
    srvcf := srvcf, cCount := 0, cqWaiting := [], cqWaitingNum := 0, workingNum := 0,
    timeout := srvcf.accessTimeout }
  heap := heap
  conns := Store.empty
  loop := fun _ _ => false
  fds := fun _ => none
  sys := {}
  io := []
  fdLog := []
  log := []
  choices := []

/-- The state in which `x_access_in` enters the loop, for a configuration as
`x_server_conf_new` leaves it. -/
def Start (w : World) : Prop :=
  ∃ srvcf mallocs heap, srvcf.upstreamIndex = 0 ∧
    (xBufInit 1 nodeBufsiz).run (emptyHeap mallocs) = .ok () heap ∧ heap.mallocs = [] ∧
    w = listener srvcf heap

end TcpFunnel.EventLoop
