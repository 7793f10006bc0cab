import TcpFunnel.Attempts

/-!
# Failed promotions

An attempt that fails before `connect` leaves the queue, the counters and the
phases of all records alone. One that is refused is undone by the closer,
which gives back a slot that had not been taken, and what comes after it does
not restore the slot.
-/

set_option autoImplicit false

namespace TcpFunnel.FailedPromotion
open TcpFunnel.BufferPool TcpFunnel.Connection TcpFunnel.SystemCalls TcpFunnel.Upstream
open TcpFunnel.EventLoop TcpFunnel.Reachability TcpFunnel.Actions TcpFunnel.QueueInvariant
open TcpFunnel.StageInvariant TcpFunnel.TransferRuns TcpFunnel.SchedulerSimulation TcpFunnel.Runs
open TcpFunnel.Attempts

/-- The queue, the counters and the phases are what they were, and no upstream
has been opened. -/
structure Atomic (w w' : World) : Prop where
  queue : w'.ln.cqWaiting = w.ln.cqWaiting
  num : w'.ln.cqWaitingNum = w.ln.cqWaitingNum
  working : w'.ln.workingNum = w.ln.workingNum
  status : ∀ c, (w'.conns.get c).map (·.status) = (w.conns.get c).map (·.status)
  upcStatus : ∀ c r', w'.conns.get c = some r' → r'.upcStatus = .connect ∨ r'.upcStatus = .working →
    ∃ r, w.conns.get c = some r ∧ r.upcStatus = r'.upcStatus

variable {w : World} {c : ConnId} {r : XtpConn} {o : Outcomes}

theorem atomic_unchanged (w : World) (t : Answers) : Atomic w (w.setSys t) where
  queue := rfl
  num := rfl
  working := rfl
  status := fun _ => rfl
  upcStatus := fun _ r hr _ => ⟨r, hr, rfl⟩

theorem atomic_abandoned (hr : w.conns.get c = some r) (i : ℕ) (leaked : Option ℤ) (t : Answers) :
    Atomic w ((abandoned w c r i leaked).setSys t) where
  queue := by simp
  num := by simp
  working := by simp
  status := by
    intro d
    by_cases hd : d = c
    · simp [hd, hr]
    · simp [hd]
  upcStatus := by
    intro d r' hr' _
    by_cases hd : d = c
    · obtain rfl : { r with upcf := some i } = r' := by simpa [hd] using hr'
      exact ⟨r, by rw [hd, hr], rfl⟩
    · exact ⟨r', by simpa [hd] using hr', rfl⟩

/-- What follows a refused attempt takes the client off the queue or does not
give the slot back. -/
theorem refused_slots {w' : World} {i : ℕ} {fd : ℤ} {depth n : ℕ} {a : ℤ} (h : Waiting w c r)
    (hrun : (xUpstreamHandleAt depth).run ((refusedOnce w c r i fd).setSys (o.first n)) =
      .ok a w') : ¬ Atomic w w' := by
  intro hatomic
  cases handle_ended depth (refused_waiting h i fd) hrun with
  | abandoned hbefore ho hsteps hw =>
    have hworking := (refusals_once hsteps).working
    have hsame := hatomic.working
    rw [hw] at hsame
    simp only [World.setSys_frame, abandoned_frame, chosen_frame] at hsame
    push_cast at hworking
    omega
  | promoted hbefore ho hsteps hlink hw =>
    have hqueue := (refusals_once hsteps).queue
    have hmem : c ∈ w.ln.cqWaiting := scheduled_mem h.head
    have hlen := List.length_erase_of_mem hmem
    have hpos := List.length_pos_of_mem hmem
    have hleft : w'.ln.cqWaiting = w.ln.cqWaiting.erase c := by
      rw [hw, ← hqueue]
      simp
    rw [← hleft, hatomic.queue] at hlen
    omega

/-- A failed promotion is atomic exactly when nothing was attempted, or the
first attempt did not fail in `connect`. -/
theorem failed_atomic {w w' : World} {o : Outcomes} {n : ℕ} {rc : ℤ} (h : Reachable proxy w)
    (hrun : xUpstreamHandle.run (w.setSys (o.first n)) = .ok rc w') (hrc : rc ≠ xnetOk) :
    Atomic w w' ↔ w.ln.srvcf.workingNumMax ≤ w.ln.workingNum ∨ ¬ o.Refused 0 := by
  have hrest : Settled w := settled_inv (reaches_inv h)
  have hsettled : Settled (w.setSys (o.first n)) := hrest
  rw [handle_run] at hrun
  rcases handle_returned hsettled n hrun with ⟨-,hok,-⟩ | ⟨hfull,rfl⟩ | ⟨c,r,hwaiting⟩
  · exact absurd hok hrc
  · exact ⟨fun _ => Or.inl hfull, fun _ => atomic_unchanged w _⟩
  · have hw : Waiting w c r := ⟨hwaiting.head, hwaiting.conn, hwaiting.closed, hwaiting.peers⟩
    have hfree : ¬ w.ln.srvcf.workingNumMax ≤ w.ln.workingNum := Int.not_le.mpr hw.head.2
    cases n with
    | zero =>
      obtain ⟨w'',hpending⟩ := handle_unanswered (o := o) hw 1
      rw [hpending] at hrun
      cases hrun
    | succ n =>
      have hstep := handle_attempted (o := o) (n := n) hw (n+1)
      generalize (xUpstreamHandleAt (n+1+1)).run (w.setSys (o.first (n+1))) = res at hstep hrun
      cases hstep with
      | invalid => cases hrun
      | @abandoned i leaked t hi ho =>
        cases hrun
        exact ⟨fun _ => Or.inr fun href => ho href.1, fun _ => atomic_abandoned hw.conn i leaked t⟩
      | @refused i fd hi ho hfd =>
        cases hnext : (xUpstreamHandleAt (n+1)).run
            ((refusedOnce w c r i fd).setSys (o.later.first n)) with
        | error e w'' =>
          rw [bind_error hnext] at hrun
          cases hrun
        | ok b w'' =>
          rw [bind_ok hnext] at hrun
          cases hrun
          have hbroken := refused_slots hw hnext
          simp [hbroken, hfree, ho]
      | promoted =>
        cases hrun
        exact absurd rfl hrc
      | dangling => cases hrun

def noSockets : Outcomes where
  sockets := fun _ => none
  fcntls := fun _ => true
  connects := fun _ => .ok

def refusedFirst : Outcomes where
  sockets := fun j => if j = 0 then some 20 else none
  fcntls := fun _ => true
  connects := fun _ => .error

def outcome (w : World) (o : Outcomes) (n : ℕ) : Option (ℤ × ℤ) :=
  match xUpstreamHandle.run (w.setSys (o.first n)) with
  | .ok rc w' => some (rc, w'.ln.workingNum)
  | .error .. => none

theorem outcome_run {n : ℕ} {rc k : ℤ} (h : outcome w o n = some (rc, k)) :
    ∃ w', xUpstreamHandle.run (w.setSys (o.first n)) = .ok rc w' ∧ w'.ln.workingNum = k := by
  unfold outcome at h
  cases hrun : xUpstreamHandle.run (w.setSys (o.first n)) with
  | ok a w' =>
    rw [hrun] at h
    cases h
    exact ⟨w', rfl, rfl⟩
  | error e w' =>
    rw [hrun] at h
    cases h

theorem failed_atomic_noSockets : ∃ w w' : World, Reachable proxy w ∧
    xUpstreamHandle.run (w.setSys (noSockets.first 1)) = .ok xnetErr w' ∧ Atomic w w' := by
  have hplay : (play (fun _ _ => true) (listener (singlePeer 1) (initialPool true)) unserved).any
      (fun w => outcome w noSockets 1 = some (xnetErr, 0)) = true := by
    decide +kernel
  obtain ⟨w,hr,hw⟩ := play_reaches _ (.start (singlePeer_start 1)) hplay
  obtain ⟨w',hrun,-⟩ := outcome_run (of_decide_eq_true hw)
  have hfirst : ¬ noSockets.Refused 0 := by simp [Outcomes.Refused, Outcomes.Connects, noSockets]
  exact ⟨w, w', hr.reachable, hrun,
    (failed_atomic hr.reachable hrun (by decide)).mpr (Or.inr hfirst)⟩

/-- The refused attempt leaves less than no slot taken. -/
theorem refused_broken : ∃ (w w' : World) (o : Outcomes) (n : ℕ) (rc : ℤ), Reachable proxy w ∧
    (∀ c ∈ w.ln.cqWaiting, w.conns.get c ≠ none) ∧
    xUpstreamHandle.run (w.setSys (o.first n)) = .ok rc w' ∧ rc ≠ xnetOk ∧ ¬ Atomic w w' := by
  have hplay : (play (fun _ _ => true) (listener (singlePeer 1) (initialPool true)) unserved).any
      (fun w => outcome w refusedFirst 2 = some (xnetErr, -1) ∧ w.ln.workingNum = 0 ∧
        ∀ c ∈ w.ln.cqWaiting, (w.conns.get c).isSome) = true := by
    decide +kernel
  obtain ⟨w,hr,hw⟩ := play_reaches _ (.start (singlePeer_start 1)) hplay
  obtain ⟨hout,hbefore,hlive⟩ := of_decide_eq_true hw
  obtain ⟨w',hrun,hafter⟩ := outcome_run hout
  refine ⟨w, w', refusedFirst, 2, xnetErr, hr.reachable, ?_, hrun, by decide, ?_⟩
  · exact fun c hc => Option.isSome_iff_ne_none.mp (hlive c hc)
  · intro hatomic
    have hsame := hatomic.working
    omega

end TcpFunnel.FailedPromotion
