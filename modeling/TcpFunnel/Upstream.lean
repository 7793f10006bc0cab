import TcpFunnel.TransferLoops

/-!
# The upstream side

`xtp_upstream.c`. The scheduler and the closer of an upstream call each
other: `xUpstreamFinal` takes the scheduler it re-enters as an argument, and
`xUpstreamHandleAt` supplies itself with one activation less. An activation
that re-enters has taken an answer of `socket`, so the depth chosen in
`xUpstreamHandle` is only exhausted together with those answers.
-/

set_option autoImplicit false

namespace TcpFunnel.Upstream
open TcpFunnel.BufferPool TcpFunnel.Connection TcpFunnel.SystemCalls TcpFunnel.TransferLoops

def xnetOk : ℤ := 0
def xnetErr : ℤ := -1
def xnetBusy : ℤ := -3

def xAccessSendToClient (c : ConnId) : Callback Unit := evStart c .eSend

def xUpstreamSendToPeer (c : ConnId) : Callback Unit := evStart c .upcESend

/-- The peer the index `upcf` points to. -/
def peer (upcf : Option ℕ) : Callback XtpUpstreamConf := do
  match upcf with
  | none => throw .nullDereference
  | some i =>
    match (← get).ln.srvcf.upstream[i]? with
    | none => throw .wildPointer
    | some p => pure p

def xUpstreamChoosePeer : Callback ℕ := do
  let srvcf := (← get).ln.srvcf
  if srvcf.upstream.length = 0 then throw .divisionByZero
  let i := srvcf.upstreamIndex % srvcf.upstream.length
  modify fun w => (w.setLn fun ln => { ln with srvcf.upstreamIndex := i+1 }).choose i
  let _ ← peer (some i)
  pure i

def xUpstreamConnectionNew (c : ConnId) (upcf : ℕ) : Callback ℤ := do
  let sockfd ← socket c
  if sockfd = -1 then return xnetErr
  if (← xSetNonBlock) = -1 then return xnetErr
  setConn c fun r => { r with upcFd := sockfd, upcStatus := .connect }
  evStart c .upcERecv
  evStart c .upcEConnected
  setConn c fun r => { r with upcTimerRepeat := connConnectTimeout }
  evStart c .upcETimer
  let _ ← peer (some upcf)
  match ← nextConnect with
  | .ok => return xnetOk
  | .inProgress => return xnetOk
  | .error => return xnetErr

def xUpstreamInit (c : ConnId) : Callback ℤ := do
  let _ ← conn c
  let upcf ← xUpstreamChoosePeer
  let rc ← xUpstreamConnectionNew c upcf
  setConn c fun r => { r with upcf := some upcf }
  return rc

/-- `x_upstream_final`, with the scheduler it calls at its end. -/
def xUpstreamFinalWith (handle : Callback ℤ) (c : ConnId) : Callback Unit := do
  let pconn ← conn c
  if pconn.upcStatus = .none then return
  if pconn.upcStatus ≠ .close then
    evStop c .upcERecv
    evStop c .upcESend
    evStop c .upcEConnected
    evStop c .upcETimer
    close pconn.upcFd
    setConn c fun r => { r with upcStatus := .close }
    if pconn.status ≠ .close then xAccessSendToClient c
    modify fun w => (w.setLn fun ln => { ln with workingNum := ln.workingNum-1 }).note (.released c)
    let _ ← handle

/-- `x_upstream_handle`. One unit of the argument is one activation. -/
def xUpstreamHandleAt : ℕ → Callback ℤ
  | 0 => throw .pending
  | depth+1 => do
    let ln := (← get).ln
    match ln.cqWaiting with
    | [] => return xnetOk
    | c::_ =>
      if ln.workingNum ≥ ln.srvcf.workingNumMax then return xnetBusy
      let rc ← xUpstreamInit c
      if rc = xnetOk then
        tailqRemove c
        modify (·.setLn fun ln => { ln with cqWaitingNum := ln.cqWaitingNum-1 })
        setConn c fun r => { r with status := .working }
        modify fun w =>
          (w.setLn fun ln => { ln with workingNum := ln.workingNum+1 }).note (.promoted c)
      else
        xUpstreamFinalWith (xUpstreamHandleAt depth) c
      return rc

def xUpstreamHandle : Callback ℤ := do
  xUpstreamHandleAt ((← get).sys.sockets.length+1)

def xUpstreamFinal (c : ConnId) : Callback Unit := xUpstreamFinalWith xUpstreamHandle c

def xUpstreamConnectedCb (c : ConnId) : Callback Unit := do
  let pconn ← conn c
  match ← nextSockopt with
  | .error => xUpstreamFinal c
  | .valopt v =>
    if v ≠ 0 then
      xUpstreamFinal c
    else
      evStop c .upcEConnected
      evStart c .upcESend
      let upcf ← peer pconn.upcf
      setConn c fun r => { r with upcTimerRepeat := 10*upcf.timeout }
      evTimerAgain c .upcETimer (10*upcf.timeout)
      setConn c fun r => { r with upcStatus := .working }

/-- `x_buf_alloc` followed by `STAILQ_INSERT_TAIL`. -/
def linkBuf (c : ConnId) (p : Pipe) : Callback BufId := do
  let b ← onHeap xBufAlloc
  setConn c fun r => r.setPipe p (r.pipe p ++ [b])
  pure b

/-- `STAILQ_LAST`, with a new buffer linked in when the pipe is empty. -/
def tailBuf (c : ConnId) (p : Pipe) : Callback BufId := do
  match ((← conn c).pipe p).getLast? with
  | some b => pure b
  | none => linkBuf c p

def setBuf (b : BufId) (f : XtpBuf → XtpBuf) : Callback Unit := do
  let r ← onHeap (buf b)
  modify fun w => w.setHeap { w.heap with bufs := w.heap.bufs.set b (f r) }

/-- The loop behind the label `recv2buf`, shared by the two receiving
callbacks: true when it ends without an error. -/
def recv2buf (c : ConnId) (p : Pipe) (fd : ℤ) : ℕ → BufId → Callback Bool
  | 0, _ => throw .pending
  | turns+1, b => do
    let r ← onHeap (buf b)
    if r.last = r.endPos then return true
    let len ← xRecvn fd b r.last (r.endPos-r.last)
    if len < 0 then return false
    if len = 0 then return true
    setBuf b fun r => { r with last := r.last+len.toNat }
    let r ← onHeap (buf b)
    if r.endPos = r.last then
      let b' ← linkBuf c p
      recv2buf c p fd turns b'
    else
      recv2buf c p fd turns b

inductive Drained where
  | error
  | again
  | done
  deriving DecidableEq, Repr

/-- The inner loop of the two sending callbacks: `while (buf->pos !=
buf->last)`. -/
def sendBuf (fd : ℤ) (b : BufId) : ℕ → Callback Drained
  | 0 => throw .pending
  | turns+1 => do
    let r ← onHeap (buf b)
    if r.pos = r.last then return .done
    let len ← xSendn fd b r.pos (r.last-r.pos)
    if len < 0 then return .error
    if len = 0 then return .again
    setBuf b fun r => { r with pos := r.pos+len.toNat }
    sendBuf fd b turns

/-- `STAILQ_REMOVE` of the first buffer and `x_buf_free`. -/
def unlinkHead (c : ConnId) (p : Pipe) (b : BufId) : Callback Unit := do
  setConn c fun r => r.setPipe p (r.pipe p).tail
  onHeap (xBufFree b)

/-- `x_upstream_send_cb` from the label `bufsend`. One unit of the argument
is one buffer. -/
def xUpstreamSendCbAt (c : ConnId) : ℕ → Callback Unit
  | 0 => throw .pending
  | buffers+1 => do
    let pconn ← conn c
    match pconn.pipe1 with
    | [] => evStop c .upcESend
    | b::_ =>
      match ← sendBuf pconn.upcFd b ((← get).sys.sends.length+1) with
      | .error => xUpstreamFinal c
      | _ =>
        let r ← onHeap (buf b)
        if r.pos = r.endPos then
          unlinkHead c .pipe1 b
          xUpstreamSendCbAt c buffers
        else
          evStop c .upcESend

def xUpstreamSendCb (c : ConnId) : Callback Unit := do
  xUpstreamSendCbAt c ((← conn c).pipe1.length+1)

def xUpstreamRecvCb (c : ConnId) : Callback Unit := do
  let b ← tailBuf c .pipe2
  if ← recv2buf c .pipe2 (← conn c).upcFd ((← get).sys.recvs.length+1) b then
    xAccessSendToClient c
  else
    xUpstreamFinal c

def xUpstreamTimeoutCb (c : ConnId) : Callback Unit := do
  let pconn ← conn c
  if pconn.upcStatus ≠ .close then setConn c fun r => { r with upcStatus := .timeout }
  xUpstreamFinal c
  evStop c .upcETimer

end TcpFunnel.Upstream
