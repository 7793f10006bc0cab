import TcpFunnel.StreamInvariant
import TcpFunnel.PipeShape

/-!
# The accounts of a pipe

As long as both ends of a connection are served, what has arrived for a pipe
has departed from it or is held in its buffers. The pipe then has as many
buffers as these bytes need, and at most two more.
-/

set_option autoImplicit false

namespace TcpFunnel.PipeAccounts
open TcpFunnel.BufferPool TcpFunnel.Connection TcpFunnel.Reachability TcpFunnel.Actions
open TcpFunnel.Invariants TcpFunnel.BufferInvariant TcpFunnel.StageInvariant TcpFunnel.PipeFlow
open TcpFunnel.StreamInvariant TcpFunnel.Runs

variable {s : Stage} {w : World} {c : ConnId} {p : Pipe} {r : XtpConn} {h : Heap} {b : BufId}
variable {bs : List BufId}

def bufferRoom (h : Heap) : ℕ := (h.bp.size-1).toNat - h.bp.offset

theorem reachable_streams (h : Reachable proxy w) : Streams (fun _ => False) (rest w) :=
  reaches_along _ (fun _ h => start_streams h) (fun _ _ h => supply_streams h)
    (fun _ _ hI hS ha => act_streams ha hI hS)
    (fun _ _ _ _ _ _ hu hS => rest_streams hS hu.busy fun _ => False.elim) h

theorem pipe_lossless (h : Reachable proxy w) (hr : w.conns.get c = some r)
    (hs : r.status ≠ .close) (hleft : UpstreamLeft r) (p : Pipe) :
    departed w c p ++ unsent w c p = arrived w c p := by
  have hkept : StreamInvariant.Kept (rest w).busy c p r :=
    ⟨hs, by simp [rest], fun _ => ⟨hleft, by simp [rest]⟩⟩
  exact (reachable_streams h c p).lossless r hr hkept fun _ => .inl ⟨hleft, by simp [rest]⟩

section windows

variable (hall : ∀ b ∈ bs, ∃ rb, h.bufs.get b = some rb ∧ PipeBuf h.bp rb)
include hall

theorem window_le (hb : b ∈ bs) : (window h b).length ≤ bufferRoom h := by
  obtain ⟨rb,hrb,hp⟩ := hall b hb
  have hstart := hp.startAt
  have hend := hp.endAt
  have hpos := hp.startPos
  have hlast := hp.lastEnd
  rw [window_of hrb, Memory.read_length, bufferRoom]
  omega

theorem windows_le : (bs.flatMap (window h)).length ≤ bs.length * bufferRoom h := by
  induction bs with
  | nil => simp
  | cons b bs ih =>
    have hhead := window_le hall (List.mem_cons_self ..)
    have hrest := ih fun a ha => hall a (List.mem_cons_of_mem _ ha)
    rw [List.flatMap_cons, List.length_append, List.length_cons, Nat.add_mul, Nat.one_mul]
    omega

theorem windows_full (hfull : ∀ b ∈ bs, ∀ rb, h.bufs.get b = some rb → rb.last = rb.endPos)
    (hunread : ∀ b ∈ bs, ∀ rb, h.bufs.get b = some rb → rb.pos = rb.start) :
    (bs.flatMap (window h)).length = bs.length * bufferRoom h := by
  induction bs with
  | nil => simp
  | cons b bs ih =>
    obtain ⟨rb,hrb,hp⟩ := hall b (List.mem_cons_self ..)
    have hlast := hfull b (List.mem_cons_self ..) rb hrb
    have hpos := hunread b (List.mem_cons_self ..) rb hrb
    have hhead : (window h b).length = bufferRoom h := by
      rw [window_of hrb, Memory.read_length, hlast, hpos, hp.startAt, hp.endAt, bufferRoom]
    have hrest := ih (fun a ha => hall a (List.mem_cons_of_mem _ ha))
      (fun a ha => hfull a (List.mem_cons_of_mem _ ha))
      (fun a ha => hunread a (List.mem_cons_of_mem _ ha))
    rw [List.flatMap_cons, List.length_append, hhead, hrest, List.length_cons, Nat.add_mul,
      Nat.one_mul, Nat.add_comm]

end windows

/-- The buffers between the first and the last of a pipe are full and unread. -/
theorem shape_bounds {full : Bool} (hS : Shape h full bs) :
    (bs.length-2) * bufferRoom h ≤ (bs.flatMap (window h)).length ∧
    (bs.flatMap (window h)).length ≤ bs.length * bufferRoom h := by
  refine ⟨?_, windows_le hS.each⟩
  rcases List.eq_nil_or_concat bs with rfl | ⟨front,z,rfl⟩
  · simp
  · cases front with
    | nil => simp
    | cons b mid =>
      have hdrop : ((b::mid).concat z).dropLast = b::mid := by
        rw [List.concat_eq_append, List.dropLast_concat]
      have hmid : (mid.flatMap (window h)).length = mid.length * bufferRoom h := by
        apply windows_full
        · intro a ha
          exact hS.each a (by simp [ha])
        · intro a ha
          apply hS.front a
          rw [hdrop]
          exact List.mem_cons_of_mem _ ha
        · intro a ha
          exact hS.unread a (by simp [ha])
      simp only [List.concat_eq_append, List.cons_append, List.flatMap_cons, List.flatMap_append,
        List.length_append, List.length_cons, List.length_nil, hmid]
      have hlength : mid.length+(0+1)+1-2 = mid.length := by omega
      rw [hlength]
      omega

/-- A connection that is not closed holds what it has received and not sent,
in the buffers that this takes and at most two more. When its upstream has
been closed, the rest of the response comes next. -/
theorem bytes_accounted (h : Reachable proxy w) (hr : w.conns.get c = some r)
    (hs : r.status ≠ .close) :
    ((r.upcStatus = .close → r.status = .waiting) → ∀ p,
      departed w c p ++ unsent w c p = arrived w c p ∧
      ((r.pipe p).length-2) * bufferRoom w.heap ≤
        (arrived w c p).length - (departed w c p).length ∧
      (arrived w c p).length - (departed w c p).length ≤ (r.pipe p).length * bufferRoom w.heap) ∧
    departed w c .pipe2 ++ unsent w c .pipe2 <+: arrived w c .pipe2 := by
  constructor
  · intro hleft p
    have hall : departed w c p ++ unsent w c p = arrived w c p := pipe_lossless h hr hs hleft p
    have hlength : (arrived w c p).length - (departed w c p).length = (unsent w c p).length := by
      rw [← hall, List.length_append]
      omega
    have hpipe : w.pipes c p = r.pipe p := pipes_of hr p
    obtain ⟨hlow,hhigh⟩ := shape_bounds ((reaches_inv h).buffers.shape c p)
    rw [hlength, ← hpipe]
    exact ⟨hall, hlow, hhigh⟩
  · exact (reachable_streams h c .pipe2).inOrder r hr ⟨hs, by simp [rest], fun h => by cases h⟩

theorem bytes_accounted_oneWaits : ∃ w, departed w 1 .pipe1 ++ unsent w 1 .pipe1 = [2] ∧
    arrived w 1 .pipe1 = [2] := by
  have hplay : (play (fun _ _ => true) (EventLoop.listener (singlePeer 1) (initialPool true))
      oneWaits).any (fun w => decide (arrived w 1 .pipe1 = [2]) &&
        (w.conns.get 1).any fun r => r.status = .waiting) = true := by
    decide +kernel
  obtain ⟨w,hreach,hw⟩ := play_reaches _ (.start (singlePeer_start 1)) hplay
  obtain ⟨hin,hrec⟩ := Bool.and_eq_true_iff.mp hw
  obtain ⟨r,hr,hs⟩ := (Option.any_eq_true _ _).mp hrec
  have hs : r.status = .waiting := of_decide_eq_true hs
  have haccounts := (bytes_accounted hreach.reachable hr (by simp [hs])).1 (fun _ => hs) .pipe1
  exact ⟨w, haccounts.1.trans (of_decide_eq_true hin), of_decide_eq_true hin⟩

end TcpFunnel.PipeAccounts
