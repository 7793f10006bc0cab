import TcpFunnel.SystemCalls
import TcpFunnel.Library.CInt

/-!
# The transfer loops

`xtp_nio.c`. The loops keep the number of bytes still to move in an `int`
that starts from an `unsigned int`, and return the difference of the two.
-/

set_option autoImplicit false

namespace TcpFunnel.TransferLoops
open TcpFunnel.BufferPool TcpFunnel.Connection TcpFunnel.SystemCalls TcpFunnel.CInt

/-- The loop of `x_recvn`, at `str` with `n` bytes to go. One unit of the
first argument is one turn. -/
def xRecvnLoop (nSocket : ℤ) (b : BufId) (nLen : ℕ) : ℕ → ℕ → ℤ → Callback ℤ
  | 0, _, _ => throw .pending
  | turns+1, str, n => do
    if n ≤ 0 then return cInt (nLen-n)
    match ← recv nSocket b str n.toNat with
    | .eintr => xRecvnLoop nSocket b nLen turns str n
    | .eagain => return cInt (nLen-n)
    | .error => return -1
    | .got [] => return -2
    | .got bytes => xRecvnLoop nSocket b nLen turns (str+bytes.length) (n-bytes.length)

/-- Every turn but the last takes an answer of `recv`. -/
def xRecvn (nSocket : ℤ) (b : BufId) (str nLen : ℕ) : Callback ℤ := do
  xRecvnLoop nSocket b nLen ((← get).sys.recvs.length+1) str (cInt nLen)

def xSendnLoop (nSocket : ℤ) (b : BufId) (nLen : ℕ) : ℕ → ℕ → ℤ → Callback ℤ
  | 0, _, _ => throw .pending
  | turns+1, str, n => do
    if n ≤ 0 then return cInt (nLen-n)
    match ← send nSocket b str n.toNat with
    | .eintr => xSendnLoop nSocket b nLen turns str n
    | .eagain => return cInt (nLen-n)
    | .error => return -1
    | .sent 0 => return -2
    | .sent k => xSendnLoop nSocket b nLen turns (str+k) (n-k)

def xSendn (nSocket : ℤ) (b : BufId) (str nLen : ℕ) : Callback ℤ := do
  xSendnLoop nSocket b nLen ((← get).sys.sends.length+1) str (cInt nLen)

/-- `F_GETFL` and, where that succeeds, `F_SETFL`. -/
def xSetNonBlock : Callback ℤ := do
  if ¬ (← nextFcntl) then return -1
  if ¬ (← nextFcntl) then return -1
  return 0

end TcpFunnel.TransferLoops
