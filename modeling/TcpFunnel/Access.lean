import TcpFunnel.Upstream

/-!
# The client side

`xtp_access.c`: accepting, relaying and closing clients.
-/

set_option autoImplicit false

namespace TcpFunnel.Access
open TcpFunnel.BufferPool TcpFunnel.Connection TcpFunnel.SystemCalls TcpFunnel.TransferLoops
open TcpFunnel.Upstream

/-- The address of the peer is read for the log, so its pointer has to be
valid as soon as there is an upstream. -/
def xEventClose (c : ConnId) : Callback Unit := do
  let pconn ← conn c
  if pconn.status ≠ .close then
    if pconn.upcStatus ≠ .none then
      let _ ← peer pconn.upcf
    xUpstreamFinal c
    evStop c .eRecv
    evStop c .eSend
    close pconn.fd
    if (← conn c).status = .waiting then
      tailqRemove c
      modify (·.setLn fun ln => { ln with cqWaitingNum := ln.cqWaitingNum-1 })
    setConn c fun r => { r with timerRepeat := connFreeTimeout }
    evTimerAgain c .eTimer connFreeTimeout
    setConn c fun r => { r with status := .close }
    modify fun w => (w.setLn fun ln => { ln with cCount := ln.cCount-1 }).note (.closed c)

def xRecvCb (c : ConnId) : Callback Unit := do
  let b ← tailBuf c .pipe1
  if ← recv2buf c .pipe1 (← conn c).fd ((← get).sys.recvs.length+1) b then
    if (← conn c).status = .none then
      tailqInsertTail c
      modify (·.setLn fun ln => { ln with cqWaitingNum := ln.cqWaitingNum+1 })
      setConn c fun r => { r with status := .waiting }
      modify (·.note (.inserted c))
      let _ ← xUpstreamHandle
    if (← conn c).upcStatus = .working then xUpstreamSendToPeer c
  else
    xEventClose c

/-- The end of `x_send_cb`, reached with nothing left to send. -/
def xSendCbEnd (c : ConnId) : Callback Unit := do
  if (← conn c).upcStatus = .close then xEventClose c else evStop c .eSend

/-- `x_send_cb` from the label `bufsend`. -/
def xSendCbAt (c : ConnId) : ℕ → Callback Unit
  | 0 => throw .pending
  | buffers+1 => do
    let pconn ← conn c
    match pconn.pipe2 with
    | [] => xSendCbEnd c
    | b::_ =>
      match ← sendBuf pconn.fd b ((← get).sys.sends.length+1) with
      | .error => xEventClose c
      | .again => return
      | .done =>
        let r ← onHeap (buf b)
        if r.pos = r.endPos then
          unlinkHead c .pipe2 b
          xSendCbAt c buffers
        else
          xSendCbEnd c

def xSendCb (c : ConnId) : Callback Unit := do
  xSendCbAt c ((← conn c).pipe2.length+1)

/-- `while ((buf = STAILQ_FIRST(&pconn->pipe)))`, one unit of the argument a
buffer. -/
def freePipe (c : ConnId) (p : Pipe) : ℕ → Callback Unit
  | 0 => throw .pending
  | buffers+1 => do
    match (← conn c).pipe p with
    | [] => return
    | b::_ =>
      unlinkHead c p b
      freePipe c p buffers

def zfree (c : ConnId) : Callback Unit := do
  let _ ← conn c
  modify fun w => { w with conns := w.conns.free c }

def xTimeoutCb (c : ConnId) : Callback Unit := do
  let pconn ← conn c
  if pconn.status ≠ .close then setConn c fun r => { r with status := .timeout }
  xEventClose c
  evStop c .eTimer
  freePipe c .pipe1 ((← conn c).pipe1.length+1)
  freePipe c .pipe2 ((← conn c).pipe2.length+1)
  zfree c

/-- The loop around `accept`: it goes on after `EAGAIN` and ends with `-1`
after any other error. -/
def acceptLoop : ℕ → Callback ℤ
  | 0 => throw .pending
  | turns+1 => do
    match ← accept with
    | .fd newfd => return newfd
    | .eagain => acceptLoop turns
    | .error => return -1

def newConn (fd timeout : ℤ) : XtpConn where
  fd := fd
  status := .none
  timerRepeat := 10*timeout
  pipe1 := []
  pipe2 := []
  upcf := none
  upcFd := 0
  upcTimerRepeat := 0
  upcStatus := .none

def xAcceptCb : Callback Unit := do
  let newfd ← acceptLoop ((← get).sys.accepts.length+1)
  let listen := (← get).ln
  if listen.cCount ≥ listen.srvcf.accessMax then
    close newfd
  else
    let c := (← get).conns.next
    modify fun w => { w with conns := w.conns.push (newConn newfd listen.timeout) }
    let _ ← xSetNonBlock
    evStart c .eRecv
    evStart c .eTimer
    modify (·.setLn fun ln => { ln with cCount := ln.cCount+1 })

end TcpFunnel.Access
