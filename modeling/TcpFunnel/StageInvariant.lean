import TcpFunnel.BufferInvariant
import TcpFunnel.DescriptorInvariant

/-!
# The invariant of every stage

It holds when the loop is entered, the answers that come with a callback do
not matter to it, and every action keeps it.
-/

set_option autoImplicit false

namespace TcpFunnel.StageInvariant
open TcpFunnel.BufferPool TcpFunnel.Connection TcpFunnel.EventLoop TcpFunnel.Actions
open TcpFunnel.Invariants TcpFunnel.QueueInvariant TcpFunnel.RecordInvariant
open TcpFunnel.BufferInvariant TcpFunnel.DescriptorInvariant

variable {o : Option ConnId} {s t : Stage}

theorem act_inv (h : Act o s t) (hI : Inv s) : Inv t where
  records := act_records h hI.records hI.queue
  queue := act_queue h hI.records hI.queue
  buffers := act_buffers h hI.buffers hI.records
  descriptors := act_descriptors h hI.descriptors hI.records hI.queue

theorem path_inv (h : Acts o s t) (hI : Inv s) : Inv t := by
  induction h with
  | refl => exact hI
  | tail _ ha ih => exact act_inv ha ih

def rest (w : World) : Stage := ⟨w, .idle, false, [], []⟩

theorem rest_inv {s : Stage} (hI : Inv s) (hbusy : s.busy = .idle ∨ s.busy = .over) :
    Inv (rest s.w) := by
  obtain ⟨w,busy,due,fs,is⟩ := s
  have hfull : ∀ c p, Busy.full .idle c p = Busy.full busy c p := by
    intro c p
    rcases hbusy with rfl | rfl <;> simp [Busy.full]
  have hopen : ∀ c, busy ≠ .closing c := by
    intro c
    rcases hbusy with rfl | rfl <;> simp
  refine ⟨⟨hI.records.1, hI.records.2, fun c r hr => ?_,
      by simp [rest, Busy.about], by simp [rest]⟩,
    ⟨hI.queue.1, hI.queue.2, hI.queue.3, fun c hc r hr => ?_, hI.queue.5, by simp [rest]⟩,
    same_buffers hI.buffers rfl rfl rfl rfl (fun _ _ => rfl) hfull,
    ⟨hI.descriptors.1, hI.descriptors.2, hI.descriptors.3⟩⟩
  · exact phase_mono (hI.records.phase c r hr) (fun h => absurd h (hopen c))
  · have hmem := hI.queue.mem c hc r hr
    exact ⟨Or.inl (hmem.1.resolve_right (hopen c)), hmem.2⟩

theorem supply_inv {w : World} (turn : Turn) (hI : Inv (rest w)) : Inv (rest (supply w turn)) :=
  ⟨⟨hI.records.1, hI.records.2, hI.records.3, hI.records.4, hI.records.5⟩,
    ⟨hI.queue.1, hI.queue.2, hI.queue.3, hI.queue.4, hI.queue.5, hI.queue.6⟩,
    same_buffers hI.buffers rfl rfl rfl rfl (fun _ _ => rfl) (fun _ _ => rfl),
    ⟨hI.descriptors.1, hI.descriptors.2, hI.descriptors.3⟩⟩

def emptyPool : Heap where
  bp := { n := 0, max := 0, size := nodeBufsiz, offset := sizeofXtpBuf, head := [] }
  bufs := Store.empty
  mallocs := []

/-- The pool after `x_buf_init(bp, 1, NODE_BUFSIZ)`, whose `malloc` may fail. -/
def initialPool (got : Bool) : Heap := if got then pushBlock zeroedBuf emptyPool else emptyPool

theorem init_run {mallocs : List Bool} {heap : Heap}
    (h : (xBufInit 1 nodeBufsiz).run (emptyHeap mallocs) = .ok () heap) (hm : heap.mallocs = []) :
    ∃ got, heap = initialPool got := by
  cases mallocs with
  | nil => cases h
  | cons got rest =>
    have hheap : heap = { initialPool got with mallocs := rest } := by
      cases got <;> cases h <;> rfl
    subst hheap
    exact ⟨got, by cases hm; cases got <;> rfl⟩

theorem initial_buffers (srvcf : XtpSrvconf) (got : Bool) :
    Buffers (rest (listener srvcf (initialPool got))) := by
  have hnone : Buffers (rest (listener srvcf (initialPool false))) := by
    constructor <;> simp [rest, listener, initialPool, emptyPool, World.pipes, Store.empty,
      Store.WellFormed, nodeBufsiz, sizeofXtpBuf, shape_nil]
  cases got with
  | false => exact hnone
  | true => exact push_buffers hnone ⟨rfl, (by decide : (0 : ℤ) ≤ nodeBufsiz)⟩ rfl rfl rfl

theorem start_inv {w : World} (h : Start w) : Inv (rest w) := by
  obtain ⟨srvcf,mallocs,heap,-,hrun,hm,rfl⟩ := h
  obtain ⟨got,rfl⟩ := init_run hrun hm
  refine ⟨⟨Store.empty_wellFormed, ?_, ?_, ?_, ?_⟩, ?_, initial_buffers srvcf got, ?_⟩
  · exact fun _ _ _ => rfl
  · rintro _ _ ⟨⟩
  · rintro _ ⟨⟩
  · rintro _ _ _ ⟨⟩
  · constructor <;> simp [rest, listener, Store.empty]
  · constructor <;> simp [rest, listener, Store.empty]

end TcpFunnel.StageInvariant
