import TcpFunnel.BufferAdjust
import TcpFunnel.PoolRuns
import TcpFunnel.Library.Links
import TcpFunnel.Library.Agreement

/-!
# The free list through `next`

`xtp_bufpool.c` once more, with the free list as the source has it: `bp->head`
points to a buffer and `next` of a buffer to the next one. Each function is
related to its counterpart over the list of names.
-/

set_option autoImplicit false

namespace TcpFunnel.LinkedPool
open TcpFunnel.BufferPool TcpFunnel.EventLoop TcpFunnel.BufferAdjust TcpFunnel.Links
open TcpFunnel.PoolRuns TcpFunnel.TransferRuns TcpFunnel.Reachability TcpFunnel.Agreement
open TcpFunnel.CInt

structure LinkedBufPool where
  n : ℤ
  max : ℤ
  size : ℤ
  offset : ℕ
  head : Option BufId

structure LinkedHeap where
  bp : LinkedBufPool
  bufs : Store XtpBuf
  next : BufId → Option BufId
  mallocs : List Bool

abbrev Linked (α : Type) := EStateM Stop LinkedHeap α

def LinkedBufPool.listed (bp : LinkedBufPool) (free : List BufId) : XtpBufPool where
  n := bp.n
  max := bp.max
  size := bp.size
  offset := bp.offset
  head := free

def LinkedHeap.setNext (h : LinkedHeap) (b : BufId) (x : Option BufId) : LinkedHeap :=
  { h with next := fun a => if a = b then x else h.next a }

def malloc : Linked Bool := do
  match (← get).mallocs with
  | [] => throw .pending
  | answer::rest =>
    modify fun h => { h with mallocs := rest }
    pure answer

def pushBlock (make : XtpBufPool → XtpBuf) (h : LinkedHeap) : LinkedHeap where
  bp := { h.bp with
    head := some h.bufs.next, n := cInt (h.bp.n+1), max := cInt (h.bp.max+1) }
  bufs := h.bufs.push (make (h.bp.listed []))
  next := fun a => if a = h.bufs.next then h.bp.head else h.next a
  mallocs := h.mallocs

def addBlocks (make : XtpBufPool → XtpBuf) : ℕ → Linked Unit
  | 0 => pure ()
  | k+1 => do
    if ← malloc then
      let bp := (← get).bp
      if bp.size < bp.offset then throw .wildPointer
      modify (pushBlock make)
    addBlocks make k

def xBufInit (max size : ℤ) : Linked Unit := do
  modify fun h => { h with
    bp := { n := 0, max := 0, size := size, offset := sizeofXtpBuf, head := none } }
  addBlocks zeroedBuf max.toNat

def xBufRalloc (num : ℤ) : Linked Unit := do
  modify fun h => { h with bp.max := if h.bp.max ≠ 0 then h.bp.max else 1 }
  let h ← get
  let num := if num ≠ 0 then num else h.bp.max
  addBlocks (fun bp => rewound (zeroedBuf bp) bp) num.toNat

def buf (b : BufId) : Linked XtpBuf := do
  match (← get).bufs.get b with
  | some r => pure r
  | none => throw .useAfterFree

def xBufAllocAt : ℕ → Linked BufId
  | 0 => throw .pending
  | k+1 => do
    match (← get).bp.head with
    | none =>
      xBufRalloc 0
      xBufAllocAt k
    | some b =>
      let r ← buf b
      modify fun h => { h.setNext b none with
        bp := { h.bp with head := h.next b, n := cInt (h.bp.n-1) }
        bufs := h.bufs.set b (rewound r (h.bp.listed [])) }
      pure b

def xBufAlloc : Linked BufId := do
  xBufAllocAt ((← get).mallocs.length+1)

def realloc (newsize : ℤ) : Linked Bool := do
  let got ← malloc
  if got ∧ newsize < 0 then throw .pending
  pure got

def xBufAdjust (b : BufId) (size : ℤ) : Linked (Option BufId) := do
  let r ← buf b
  if size ≤ r.size then return some b
  if ¬ r.bp then throw .nullDereference
  let bp := (← get).bp
  let newsize := adjustedSize (bp.listed []) size
  if ¬ (← realloc newsize) then return none
  modify fun h => { h with bufs := h.bufs.set b (resized r (bp.listed []) newsize) }
  return some b

def xBufFree (b : BufId) : Linked Unit := do
  let r ← buf b
  if r.bp then
    if r.size > (← get).bp.size then
      modify fun h => { h with bufs := h.bufs.free b, bp.max := cInt (h.bp.max-1) }
    else
      modify fun h =>
        { h.setNext b h.bp.head with bp := { h.bp with head := some b, n := cInt (h.bp.n+1) } }

/-- `while (bp->head != NULL)`; one unit of the argument is one turn. -/
def xBufUninit : ℕ → Linked Unit
  | 0 => do if (← get).bp.head ≠ none then throw .pending
  | turns+1 => do
    match (← get).bp.head with
    | none => pure ()
    | some tmp =>
      let _ ← buf tmp
      modify fun h => { h with bp.head := h.next tmp, bufs := h.bufs.free tmp }
      xBufUninit turns

def LinkedHeap.word (h : LinkedHeap) : Cell Unit BufId → Option BufId
  | .first _ => h.bp.head
  | .next b => h.next b

def LinkedHeap.listed (h : LinkedHeap) (free : List BufId) : Heap where
  bp := h.bp.listed free
  bufs := h.bufs
  mallocs := h.mallocs

/-- The pointers lead through the free list, and the rest is the same. -/
def Threads (l : LinkedHeap) (h : Heap) : Prop :=
  ∃ free, h = l.listed free ∧ Chain l.word (.first ()) free

def emptyLinks (mallocs : List Bool) : LinkedHeap where
  bp := { n := 0, max := 0, size := 0, offset := 0, head := none }
  bufs := Store.empty
  next := fun _ => none
  mallocs := mallocs

section functions

variable {l l' : LinkedHeap} {h h' : Heap} {out : List BufId} {b : BufId}

theorem malloc_agrees (hT : Threads l h) :
    Agree Threads (malloc.run l) (BufferPool.malloc.run h) := by
  obtain ⟨free,rfl,hchain⟩ := hT
  obtain ⟨bp,bufs,next,mallocs⟩ := l
  cases mallocs with
  | nil => rfl
  | cons answer rest => exact ⟨rfl, free, rfl, hchain⟩

theorem agree_buf {α : Type} {f : XtpBuf → Linked α} {g : XtpBuf → Pool α} (hT : Threads l h)
    (hfg : ∀ r, h.bufs.get b = some r → Agree Threads ((f r).run l) ((g r).run h)) :
    Agree Threads ((buf b >>= f).run l) ((BufferPool.buf b >>= g).run h) := by
  obtain ⟨free,rfl,hchain⟩ := hT
  have hbufs : (l.listed free).bufs = l.bufs := rfl
  cases hget : l.bufs.get b with
  | none =>
    have hrun : (buf b).run l = .error .useAfterFree l := by
      simp only [buf, EStateM.run_bind, EStateM.run_get, hget]
      rfl
    have hrun' : (BufferPool.buf b).run (l.listed free) = .error .useAfterFree (l.listed free) := by
      simp only [BufferPool.buf, EStateM.run_bind, EStateM.run_get, hbufs, hget]
      rfl
    rw [EStateM.run_bind, EStateM.run_bind, hrun, hrun']
    rfl
  | some r =>
    have hrun : (buf b).run l = .ok r l := by
      simp only [buf, EStateM.run_bind, EStateM.run_get, hget]
      rfl
    rw [EStateM.run_bind, EStateM.run_bind, hrun, buf_run (h := l.listed free) hget]
    exact hfg r hget

theorem push_threads {make : XtpBufPool → XtpBuf}
    (hmake : ∀ (bp : LinkedBufPool) free, make (bp.listed free) = make (bp.listed []))
    (hT : Threads l h) (hS : Sane h out) :
    Threads (pushBlock make l) (BufferPool.pushBlock make h) := by
  obtain ⟨free,rfl,hchain⟩ := hT
  refine ⟨l.bufs.next::free, ?_, chain_cons.mpr ⟨rfl, hchain.moved ?_ fun b hb => ?_⟩⟩
  · simp only [BufferPool.pushBlock, pushBlock, LinkedHeap.listed, hmake]
    rfl
  · exact if_pos rfl
  · have hlt : b < l.bufs.next := hS.lt (List.mem_append_left _ hb)
    exact if_neg (Nat.ne_of_lt hlt)

theorem addBlocks_agrees {make : XtpBufPool → XtpBuf}
    (hmake : ∀ (bp : LinkedBufPool) free, make (bp.listed free) = make (bp.listed []))
    (hback : ∀ bp, (make bp).bp = true) (k : ℕ) (hT : Threads l h) (hS : Sane h out) :
    Agree Threads ((addBlocks make k).run l) ((BufferPool.addBlocks make k).run h) := by
  induction k generalizing l h with
  | zero => exact ⟨rfl, hT⟩
  | succ k ih =>
    refine (malloc_agrees hT).bind fun got l' h' _ hrun hT' => ?_
    have hS' : Sane h' out := by
      obtain ⟨bp,bufs,mallocs⟩ := h
      cases mallocs with
      | nil => cases hrun
      | cons answer rest =>
        cases hrun
        exact sane_same hS rfl rfl
    cases got with
    | false => exact ih hT' hS'
    | true =>
      obtain ⟨free,rfl,hchain⟩ := hT'
      rw [if_pos rfl, if_pos rfl, EStateM.run_bind, EStateM.run_bind, EStateM.run_get,
        EStateM.run_get]
      have hsize : (l'.listed free).bp.size = l'.bp.size := rfl
      have hoff : (l'.listed free).bp.offset = l'.bp.offset := rfl
      simp only [hsize, hoff]
      by_cases hsmall : l'.bp.size < l'.bp.offset
      · rw [if_pos hsmall, if_pos hsmall]
        rfl
      · rw [if_neg hsmall, if_neg hsmall]
        exact ih (push_threads hmake ⟨free, rfl, hchain⟩ hS') (sane_push hback hS')

theorem init_agrees (max size : ℤ) (mallocs : List Bool) :
    Agree Threads ((xBufInit max size).run (emptyLinks mallocs))
      ((BufferPool.xBufInit max size).run (emptyHeap mallocs)) := by
  have hS : Sane { emptyHeap mallocs with
      bp := { n := 0, max := 0, size := size, offset := sizeofXtpBuf, head := [] } } [] :=
    ⟨Store.empty_wellFormed, List.nodup_nil, fun b hb => absurd hb List.not_mem_nil⟩
  exact addBlocks_agrees (fun _ _ => rfl) (fun _ => rfl) _ ⟨[], rfl, chain_nil.mpr rfl⟩ hS

theorem ralloc_agrees (num : ℤ) (hT : Threads l h) (hS : Sane h out) :
    Agree Threads ((xBufRalloc num).run l) ((BufferPool.xBufRalloc num).run h) := by
  obtain ⟨free,rfl,hchain⟩ := hT
  have hT' : Threads { l with bp := { l.bp with max := if l.bp.max ≠ 0 then l.bp.max else 1 } }
      (bumped (l.listed free)) := ⟨free, rfl, hchain⟩
  exact addBlocks_agrees (fun _ _ => rfl) (fun _ => rfl) _ hT' (sane_same hS rfl rfl)

theorem alloc_agrees (k : ℕ) (hT : Threads l h) (hS : Sane h out) :
    Agree Threads ((xBufAllocAt k).run l) ((BufferPool.xBufAllocAt k).run h) := by
  induction k generalizing l h with
  | zero => rfl
  | succ k ih =>
    obtain ⟨free,rfl,hchain⟩ := hT
    have hhead : l.bp.head = free.head? := hchain.head
    have hlist : (l.listed free).bp.head = free := rfl
    unfold xBufAllocAt BufferPool.xBufAllocAt
    rw [EStateM.run_bind, EStateM.run_bind, EStateM.run_get, EStateM.run_get]
    simp only [hhead, hlist]
    cases free with
    | nil =>
      refine (ralloc_agrees 0 ⟨[], rfl, hchain⟩ hS).bind fun _ l' h' _ hrun hT' => ?_
      obtain ⟨-,-,rfl⟩ := ralloc_ok hrun
      exact ih hT' (sane_reallocated hS)
    | cons b rest =>
      refine agree_buf ⟨b::rest, rfl, hchain⟩ fun r _ => ⟨rfl, rest, rfl, ?_⟩
      have hb : b ∉ rest := (List.nodup_cons.mp hS.nodup).1 ∘ List.mem_append_left _
      exact (chain_cons.mp hchain).2.moved rfl fun a ha => if_neg fun hab : a = b => hb (hab ▸ ha)

theorem realloc_agrees (newsize : ℤ) (hT : Threads l h) :
    Agree Threads ((realloc newsize).run l) ((BufferAdjust.realloc newsize).run h) := by
  refine (malloc_agrees hT).bind fun got l' h' _ _ hT' => ?_
  by_cases hneg : got ∧ newsize < 0
  · rw [if_pos hneg, if_pos hneg]
    rfl
  · rw [if_neg hneg, if_neg hneg]
    exact ⟨rfl, hT'⟩

theorem adjust_agrees (b : BufId) (size : ℤ) (hT : Threads l h) :
    Agree Threads ((xBufAdjust b size).run l) ((BufferAdjust.xBufAdjust b size).run h) := by
  refine agree_buf hT fun r hr => ?_
  by_cases hsize : size ≤ r.size
  · rw [if_pos hsize, if_pos hsize]
    exact ⟨rfl, hT⟩
  rw [if_neg hsize, if_neg hsize]
  by_cases hbp : ¬ r.bp = true
  · rw [if_pos hbp, if_pos hbp]
    rfl
  rw [if_neg hbp, if_neg hbp]
  obtain ⟨free,rfl,hchain⟩ := hT
  rw [EStateM.run_bind, EStateM.run_bind, EStateM.run_get, EStateM.run_get]
  refine (realloc_agrees _ ⟨free, rfl, hchain⟩).bind fun got l' h' _ _ hT' => ?_
  obtain ⟨free',rfl,hchain'⟩ := hT'
  cases got with
  | false => exact ⟨rfl, free', rfl, hchain'⟩
  | true => exact ⟨rfl, free', rfl, hchain'⟩

theorem free_agrees (hT : Threads l h) (hb : b ∉ h.bp.head) :
    Agree Threads ((xBufFree b).run l) ((BufferPool.xBufFree b).run h) := by
  refine agree_buf hT fun r hr => ?_
  obtain ⟨free,rfl,hchain⟩ := hT
  cases hbp : r.bp with
  | false => exact ⟨rfl, free, rfl, hchain⟩
  | true =>
    have hsize : (l.listed free).bp.size = l.bp.size := rfl
    simp only [if_true, EStateM.run_bind, EStateM.run_get, hsize]
    by_cases hlarge : r.size > l.bp.size
    · rw [if_pos hlarge, if_pos hlarge]
      exact ⟨rfl, free, rfl, hchain⟩
    · rw [if_neg hlarge, if_neg hlarge]
      refine ⟨rfl, b::free, rfl, chain_cons.mpr ⟨rfl, hchain.moved (if_pos rfl) fun a ha => ?_⟩⟩
      exact if_neg fun hab : a = b => hb (hab ▸ ha)

end functions

end TcpFunnel.LinkedPool
