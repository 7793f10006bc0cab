import Mathlib.Data.BitVec
import TcpFunnel.Library.Store

/-!
# Counted allocation

`zmalloc.c` without a `malloc` that knows the sizes of its blocks: a header of
`PREFIX_SIZE` bytes in front of every block holds the size that was asked for.
A pointer names the block whose header lies before it. Sizes are `size_t` and
wrap around, so a block may be too small for its own header. What new memory
holds is supplied from outside, and an answer `none` is a null pointer.
-/

set_option autoImplicit false

namespace TcpFunnel.Zmalloc

inductive ZStop where
  | pending
  | aborted (size : BitVec 64)
  | nullDereference
  | useAfterFree
  | overflow
  deriving DecidableEq, Repr

abbrev ZPtr := ℕ

/-- `room` is what the allocator was asked for, `size` the header, and `data`
the bytes behind it. -/
structure ZBlock where
  room : ℕ
  size : BitVec 64
  data : ℕ → UInt8

/-- The handler for a failed allocation aborts unless another one, which may
return, has been set. -/
structure ZHeap where
  usedMemory : BitVec 64
  oomReturns : Bool
  blocks : Store ZBlock
  answers : List (Option (ℕ → UInt8))

abbrev Zmem (α : Type) := EStateM ZStop ZHeap α

def prefixSize : BitVec 64 := 8

/-- `if (_n&(sizeof(long)-1)) _n += sizeof(long)-(_n&(sizeof(long)-1))`. -/
def padded (n : BitVec 64) : BitVec 64 := if n &&& 7 ≠ 0 then n + (8 - (n &&& 7)) else n

def updateZmallocStatAlloc (n : BitVec 64) : Zmem Unit :=
  modify fun h => { h with usedMemory := h.usedMemory + padded n }

def updateZmallocStatFree (n : BitVec 64) : Zmem Unit :=
  modify fun h => { h with usedMemory := h.usedMemory - padded n }

def answer : Zmem (Option (ℕ → UInt8)) := do
  match (← get).answers with
  | [] => throw .pending
  | a::rest =>
    modify fun h => { h with answers := rest }
    pure a

def pushBlock (b : ZBlock) : Zmem ZPtr := do
  let p := (← get).blocks.next
  modify fun h => { h with blocks := h.blocks.push b }
  pure p

/-- `malloc`; nothing is known of the header of a new block. -/
def malloc (size : BitVec 64) : Zmem (Option ZPtr) := do
  match ← answer with
  | none => return none
  | some bytes => return some (← pushBlock ⟨size.toNat, 0, bytes⟩)

def calloc (size : BitVec 64) : Zmem (Option ZPtr) := do
  match ← answer with
  | none => return none
  | some _ => return some (← pushBlock ⟨size.toNat, 0, fun _ => 0⟩)

def block (p : ZPtr) : Zmem ZBlock := do
  match (← get).blocks.get p with
  | some b => pure b
  | none => throw .useAfterFree

def free (p : ZPtr) : Zmem Unit := do
  let _ ← block p
  modify fun h => { h with blocks := h.blocks.free p }

/-- The bytes that both blocks have room for are kept. -/
def realloc (p : ZPtr) (size : BitVec 64) : Zmem (Option ZPtr) := do
  let b ← block p
  match ← answer with
  | none => return none
  | some bytes =>
    free p
    return some (← pushBlock ⟨size.toNat, b.size,
      fun i => if i+8 < min b.room size.toNat then b.data i else bytes i⟩)

def pointee : Option ZPtr → Zmem ZPtr
  | none => throw .nullDereference
  | some p => pure p

def setHeader (p : ZPtr) (size : BitVec 64) : Zmem Unit := do
  let b ← block p
  if b.room < 8 then throw .overflow
  modify fun h => { h with blocks := h.blocks.set p { b with size := size } }

def header (p : ZPtr) : Zmem (BitVec 64) := do
  let b ← block p
  if b.room < 8 then throw .overflow
  return b.size

def zmallocOomHandler (size : BitVec 64) : Zmem Unit := do
  if ¬ (← get).oomReturns then throw (.aborted size)

def zmalloc (size : BitVec 64) : Zmem ZPtr := do
  let ptr ← malloc (size+prefixSize)
  if ptr = none then zmallocOomHandler size
  let p ← pointee ptr
  setHeader p size
  updateZmallocStatAlloc (size+prefixSize)
  return p

def zcalloc (size : BitVec 64) : Zmem ZPtr := do
  let ptr ← calloc (size+prefixSize)
  if ptr = none then zmallocOomHandler size
  let p ← pointee ptr
  setHeader p size
  updateZmallocStatAlloc (size+prefixSize)
  return p

/-- The header is counted neither in the old nor in the new size. -/
def zrealloc (ptr : Option ZPtr) (size : BitVec 64) : Zmem ZPtr := do
  match ptr with
  | none => zmalloc size
  | some p =>
    let oldsize ← header p
    let newptr ← realloc p (size+prefixSize)
    if newptr = none then zmallocOomHandler size
    let q ← pointee newptr
    setHeader q size
    updateZmallocStatFree oldsize
    updateZmallocStatAlloc size
    return q

def zmallocSize (p : ZPtr) : Zmem (BitVec 64) := do
  let size ← header p
  return padded size + prefixSize

def zfree (ptr : Option ZPtr) : Zmem Unit := do
  match ptr with
  | none => pure ()
  | some p =>
    let oldsize ← header p
    updateZmallocStatFree (oldsize+prefixSize)
    free p

def memcpy (p : ZPtr) (off : ℕ) (bytes : List UInt8) : Zmem Unit := do
  let b ← block p
  if b.room < 8+off+bytes.length then throw .overflow
  modify fun h => { h with blocks := h.blocks.set p { b with
    data := fun i => if off ≤ i then (bytes[i-off]?).getD (b.data i) else b.data i } }

/-- A string is its bytes without the null at the end. -/
def zstrdup (s : List UInt8) : Zmem ZPtr := do
  let l := BitVec.ofNat 64 (s.length+1)
  let p ← zmalloc l
  memcpy p 0 ((s ++ [0]).take l.toNat)
  return p

def zmallocUsedMemory : Zmem (BitVec 64) := return (← get).usedMemory

def zmallocSetOomHandler (returns : Bool) : Zmem Unit :=
  modify fun h => { h with oomReturns := returns }

end TcpFunnel.Zmalloc
