import TcpFunnel.TransferLoops

/-!
# Adjusting a buffer

`x_buf_adjust` of `xtp_bufpool.c`. A block keeps its name when it is resized,
wherever `realloc` puts it.
-/

set_option autoImplicit false

namespace TcpFunnel.BufferAdjust
open TcpFunnel.BufferPool TcpFunnel.CInt

def cSizeT (x : ℤ) : ℤ := x % 18446744073709551616

/-- Takes the next answer of the allocator. A negative size is converted to a
`size_t` that no allocator serves. -/
def realloc (newsize : ℤ) : Pool Bool := do
  let got ← malloc
  if got ∧ newsize < 0 then throw .pending
  pure got

/-- The size asked of `realloc` for `size` bytes behind the header. -/
def adjustedSize (bp : XtpBufPool) (size : ℤ) : ℤ :=
  cInt ((cSizeT (size+bp.offset) / nodeBufsiz + 1) * nodeBufsiz)

def resized (r : XtpBuf) (bp : XtpBufPool) (newsize : ℤ) : XtpBuf :=
  { r with
    size := cInt (newsize-bp.offset), start := bp.offset, endPos := (newsize-1).toNat
    pos := bp.offset, last := bp.offset, block := newsize.toNat }

def xBufAdjust (b : BufId) (size : ℤ) : Pool (Option BufId) := do
  let r ← buf b
  if size ≤ r.size then return some b
  if ¬ r.bp then throw .nullDereference
  let bp := (← get).bp
  let newsize := adjustedSize bp size
  if ¬ (← realloc newsize) then return none
  modify fun h => { h with bufs := h.bufs.set b (resized r bp newsize) }
  return some b

end TcpFunnel.BufferAdjust
