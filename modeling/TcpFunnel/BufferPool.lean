import Mathlib.Data.Int.Notation
import TcpFunnel.Library.Store
import TcpFunnel.Library.CInt

/-!
# The buffer pool

`xtp_bufpool.c`. A block is named by the order in which the allocator handed
it out, and its pointers are offsets from its own first byte. The free list
is chained through `next` in the source and is the list of those names here.
The answers of `malloc` are supplied from outside, oldest first; a call that
needs one more than there are stops as `pending`. The counters are `int`s and
wrap around. A block that is too small for its own header stops as `wildPointer`
when the header is written.
-/

set_option autoImplicit false

namespace TcpFunnel.BufferPool
open TcpFunnel.CInt

inductive Stop where
  | pending
  | useAfterFree
  | nullDereference
  | divisionByZero
  | wildPointer
  deriving DecidableEq, Repr

abbrev BufId := ℕ

/-- `sizeof(xtp_buf_t)`, and the `BUFSIZ` that `NODE_BUFSIZ` stands for. -/
def sizeofXtpBuf : ℕ := 64
def nodeBufsiz : ℤ := 8192

structure XtpBuf where
  bp : Bool
  start : ℕ
  endPos : ℕ
  pos : ℕ
  last : ℕ
  size : ℤ
  block : ℕ
  data : ℕ → UInt8

structure XtpBufPool where
  n : ℤ
  max : ℤ
  size : ℤ
  offset : ℕ
  head : List BufId
  deriving DecidableEq, Repr

structure Heap where
  bp : XtpBufPool
  bufs : Store XtpBuf
  mallocs : List Bool

abbrev Pool (α : Type) := EStateM Stop Heap α

def malloc : Pool Bool := do
  match (← get).mallocs with
  | [] => throw .pending
  | answer::rest =>
    modify fun h => { h with mallocs := rest }
    pure answer

/-- A block of `bp->size` zeroed bytes with the pointers that every creation
sets; `pos` and `last` are still null. -/
def zeroedBuf (bp : XtpBufPool) : XtpBuf where
  bp := true
  start := bp.offset
  endPos := (bp.size-1).toNat
  pos := 0
  last := 0
  size := 0
  block := bp.size.toNat
  data := fun _ => 0

def rewound (buf : XtpBuf) (bp : XtpBufPool) : XtpBuf :=
  { buf with start := bp.offset, endPos := (bp.size-1).toNat, pos := bp.offset, last := bp.offset }

def pushBlock (make : XtpBufPool → XtpBuf) (h : Heap) : Heap where
  bp := { h.bp with
    head := h.bufs.next::h.bp.head, n := cInt (h.bp.n+1), max := cInt (h.bp.max+1) }
  bufs := h.bufs.push (make h.bp)
  mallocs := h.mallocs

/-- The loop of `x_buf_init` and of `x_buf_ralloc`; a failed `malloc` is
skipped. -/
def addBlocks (make : XtpBufPool → XtpBuf) : ℕ → Pool Unit
  | 0 => pure ()
  | k+1 => do
    if ← malloc then
      let bp := (← get).bp
      if bp.size < bp.offset then throw .wildPointer
      modify (pushBlock make)
    addBlocks make k

def xBufInit (max size : ℤ) : Pool Unit := do
  modify fun h => { h with
    bp := { n := 0, max := 0, size := size, offset := sizeofXtpBuf, head := [] } }
  addBlocks zeroedBuf max.toNat

def xBufRalloc (num : ℤ) : Pool Unit := do
  modify fun h => { h with bp.max := if h.bp.max ≠ 0 then h.bp.max else 1 }
  let h ← get
  let num := if num ≠ 0 then num else h.bp.max
  addBlocks (fun bp => rewound (zeroedBuf bp) bp) num.toNat

def buf (b : BufId) : Pool XtpBuf := do
  match (← get).bufs.get b with
  | some r => pure r
  | none => throw .useAfterFree

/-- `x_buf_alloc` calls itself after `x_buf_ralloc`. One unit of the first
argument is one activation. -/
def xBufAllocAt : ℕ → Pool BufId
  | 0 => throw .pending
  | k+1 => do
    match (← get).bp.head with
    | [] =>
      xBufRalloc 0
      xBufAllocAt k
    | b::rest =>
      let r ← buf b
      modify fun h => { h with
        bp := { h.bp with head := rest, n := cInt (h.bp.n-1) }
        bufs := h.bufs.set b (rewound r h.bp) }
      pure b

/-- Each activation that retries has used up an answer of `malloc`, so this
depth is only exhausted together with the answers, or by a counter that has
become negative, with which the code calls itself for ever. -/
def xBufAlloc : Pool BufId := do
  xBufAllocAt ((← get).mallocs.length+1)

def xBufFree (b : BufId) : Pool Unit := do
  let r ← buf b
  if r.bp then
    if r.size > (← get).bp.size then
      modify fun h => { h with bufs := h.bufs.free b, bp.max := cInt (h.bp.max-1) }
    else
      modify fun h =>
        { h with bp := { h.bp with head := b::h.bp.head, n := cInt (h.bp.n+1) } }

end TcpFunnel.BufferPool
