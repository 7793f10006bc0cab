import TcpFunnel.Attempts

/-!
# When the scheduler returns

The scheduler and the closer of an upstream call each other as long as
`connect` fails at once. They return when an attempt fails before `connect` or
gets past it, and not at all when every attempt is refused.
-/

set_option autoImplicit false

namespace TcpFunnel.SchedulerTermination
open TcpFunnel.BufferPool TcpFunnel.Connection TcpFunnel.SystemCalls TcpFunnel.Upstream
open TcpFunnel.EventLoop TcpFunnel.Reachability TcpFunnel.Actions TcpFunnel.Invariants
open TcpFunnel.QueueInvariant TcpFunnel.RecordInvariant TcpFunnel.StageInvariant
open TcpFunnel.TransferRuns TcpFunnel.PipeSimulation TcpFunnel.SchedulerSimulation
open TcpFunnel.ClosingSimulation TcpFunnel.Runs TcpFunnel.Attempts

def Returns {α : Type} (x : Callback α) (w : World) (o : Outcomes) : Prop :=
  ∃ n a w', x.run (w.setSys (o.first n)) = .ok a w'

def Offered (w : World) (o : Outcomes) : Prop :=
  ∀ j fd, (∀ i, i < j → o.Refused i) → o.sockets j = some fd → Fresh w fd

/-- With `working` slots taken nothing is attempted, or an attempt for the head
of the queue is not refused. -/
def Terminates (w : World) (working : ℤ) (o : Outcomes) : Prop :=
  w.ln.cqWaiting = [] ∨ w.ln.srvcf.workingNumMax ≤ working ∨
  ∃ c, w.ln.cqWaiting.head? = some c ∧ w.conns.get c ≠ none ∧
    ∃ j, (∀ i, i < j → o.Refused i) ∧ ¬ o.Refused j ∧ (o.Connects j → Linked w c)

variable {w : World} {c : ConnId} {r : XtpConn} {o : Outcomes}

theorem ended_attempt {w' : World} (h : Ended w c o w') :
    ∃ j, (∀ i, i < j → o.Refused i) ∧ ¬ o.Refused j ∧ (o.Connects j → Linked w c) := by
  cases h with
  | @abandoned j i leaked t w₁ r₁ hbefore ho =>
    exact ⟨j, hbefore, fun href => ho href.1, fun hc => absurd hc ho⟩
  | @promoted j i fd t w₁ r₁ hbefore ho hsteps hlink =>
    exact ⟨j, hbefore, ho, fun _ => hsteps.linked.mp hlink⟩

theorem handle_returns (j : ℕ) {w : World} {r : XtpConn} {o : Outcomes} {n depth : ℕ}
    (h : Waiting w c r) (hfd : Offered w o) (hbefore : ∀ i, i < j → o.Refused i)
    (hj : ¬ o.Refused j)
    (hlink : o.Connects j → Linked w c) (hn : j < n) (hdepth : j < depth) :
    ∃ a w', (xUpstreamHandleAt depth).run (w.setSys (o.first n)) = .ok a w' := by
  induction j generalizing w r o n depth with
  | zero =>
    obtain ⟨n,rfl⟩ := Nat.exists_eq_succ_of_ne_zero (Nat.ne_of_gt hn)
    obtain ⟨depth,rfl⟩ := Nat.exists_eq_succ_of_ne_zero (Nat.ne_of_gt hdepth)
    have hstep := handle_attempted (o := o) (n := n) h depth
    generalize (xUpstreamHandleAt (depth+1)).run (w.setSys (o.first (n+1))) = res at hstep ⊢
    cases hstep with
    | invalid hs hbad => exact absurd (hfd 0 _ (by simp) hs) hbad
    | abandoned => exact ⟨_, _, rfl⟩
    | refused hi ho => exact absurd ho hj
    | promoted => exact ⟨_, _, rfl⟩
    | dangling ho hok hd hne hdead => exact absurd hdead (hlink ho _ hd hne)
  | succ j ih =>
    obtain ⟨n,rfl⟩ := Nat.exists_eq_succ_of_ne_zero (show n ≠ 0 by omega)
    obtain ⟨depth,rfl⟩ := Nat.exists_eq_succ_of_ne_zero (show depth ≠ 0 by omega)
    have hfirst : o.Refused 0 := hbefore 0 (Nat.succ_pos j)
    have hstep := handle_attempted (o := o) (n := n) h depth
    generalize (xUpstreamHandleAt (depth+1)).run (w.setSys (o.first (n+1))) = res at hstep ⊢
    cases hstep with
    | invalid hs hbad => exact absurd (hfd 0 _ (by simp) hs) hbad
    | abandoned hi ho => exact absurd hfirst.1 ho
    | @refused i fd hi ho hfresh =>
      have hfd' : Offered (refusedOnce w c r i fd) o.later := by
        intro k g hk hg
        obtain ⟨hpos,hnone⟩ := hfd (k+1) g (Outcomes.refused_before hfirst hk) hg
        exact ⟨hpos, by rw [refused_fds i hfresh.2]; exact hnone⟩
      have hlater : ∃ a w', (xUpstreamHandleAt depth).run
          ((refusedOnce w c r i fd).setSys (o.later.first n)) = .ok a w' :=
        ih (refused_waiting h i fd) hfd' (fun k hk => hbefore (k+1) (by omega)) hj
          (fun hc => (refusals_once (refusals_none _ c)).linked.mpr (hlink hc))
          (by omega) (by omega)
      obtain ⟨a,w',hnext⟩ := hlater
      exact ⟨_, _, (bind_ok hnext).trans rfl⟩
    | promoted hi ho hok => exact absurd hfirst.2 hok
    | dangling ho hok => exact absurd hfirst.2 hok

theorem handle_terminates (h : Settled w) (hup : w.ln.srvcf.upstream ≠ [])
    (hfd : Offered w o) :
    Returns xUpstreamHandle w o ↔ Terminates w w.ln.workingNum o := by
  unfold Returns Terminates
  simp only [handle_run]
  cases hq : w.ln.cqWaiting with
  | nil => simpa using ⟨0, _, _, handle_empty (w := w.setSys (o.first 0)) hq 0⟩
  | cons c q =>
    by_cases hfull : w.ln.srvcf.workingNumMax ≤ w.ln.workingNum
    · simpa [hfull] using ⟨0, _, _, handle_full (w := w.setSys (o.first 0)) hq hfull 0⟩
    · cases hr : w.conns.get c with
      | none =>
        have hfreed := fun n => handle_freed (w := w.setSys (o.first n)) hq hfull hr n
        simp [hfreed, hfull, hr]
      | some r =>
        have hhead : w.ln.cqWaiting.head? = some c := by simp [hq]
        have hwaiting : Waiting w c r :=
          ⟨⟨hhead, Int.not_le.mp hfull⟩, hr, h c r hhead hr, hup⟩
        simp only [reduceCtorEq, hfull, List.head?_cons, Option.some.injEq, false_or]
        constructor
        · rintro ⟨n,a,w',hrun⟩
          exact ⟨c, rfl, by simp [hr], ended_attempt (handle_ended (n+1) hwaiting hrun)⟩
        · rintro ⟨_,rfl,-,j,hbefore,hj,hlink⟩
          exact ⟨j+1, handle_returns j hwaiting hfd hbefore hj hlink (by omega) (by omega)⟩

theorem final_returns (hr : w.conns.get c = some r) (hnone : r.upcStatus ≠ .none)
    (hclose : r.upcStatus ≠ .close) : Returns (xUpstreamFinal c) w o ↔
      Returns xUpstreamHandle (closedUpstream w c r) o := by
  unfold Returns xUpstreamFinal
  apply exists_congr
  intro n
  have hget : (w.setSys (o.first n)).conns.get c = some r := hr
  have hworld : closedUpstream (w.setSys (o.first n)) c r =
      (closedUpstream w c r).setSys (o.first n) := by
    have hwritten := closedUpstream_written w c r r (o.first n)
    rwa [putConn_self hr] at hwritten
  rw [final_run hget hnone hclose, hworld]
  constructor
  · intro ⟨a,w',hrun⟩
    cases hhandle : xUpstreamHandle.run ((closedUpstream w c r).setSys (o.first n)) with
    | ok a w' => exact ⟨a, w', rfl⟩
    | error e w' =>
      rw [bind_error hhandle] at hrun
      cases hrun
  · intro ⟨a,w',hrun⟩
    exact ⟨(), w', bind_ok hrun⟩

theorem closed_terminates (hr : w.conns.get c = some r) :
    Terminates (closedUpstream w c r) (closedUpstream w c r).ln.workingNum o ↔
      Terminates w (w.ln.workingNum-1) o := by
  have hlive : ∀ d, (closedUpstream w c r).conns.get d ≠ none ↔ w.conns.get d ≠ none := by
    intro d
    by_cases hd : d = c
    · simp [hd, hr]
    · simp [hd]
  have hlinked : ∀ d, Linked (closedUpstream w c r) d ↔ Linked w d := by
    intro d
    unfold Linked
    simp only [closedUpstream_frame, hlive]
  unfold Terminates
  simp only [hlinked, hlive, closedUpstream_frame]

theorem settled_final (h : Settled w) (c : ConnId) (r : XtpConn) :
    Settled (closedUpstream w c r) := by
  intro d r' hhead hr'
  by_cases hd : d = c
  · obtain rfl : { r with upcStatus := .close } = r' := by simpa [hd] using hr'
    exact Or.inr rfl
  · exact h d r' (by simpa using hhead) (by simpa [hd] using hr')

/-- The calls return exactly when the slots are taken, nobody waits, or one of
the attempts is not refused. -/
theorem scheduler_returns (h : Reachable proxy w) (hup : 1 ≤ w.ln.srvcf.upstream.length)
    (o : Outcomes) :
    (Offered w o → (Returns xUpstreamHandle w o ↔ Terminates w w.ln.workingNum o)) ∧
    ∀ c r, w.conns.get c = some r → Offered (w.closeFd r.upcFd) o →
      (Returns (xUpstreamFinal c) w o ↔
        r.isOpen = false ∨ Terminates w (w.ln.workingNum-1) o) := by
  have hI := reaches_inv h
  have hsettled := settled_inv hI
  have hpeers := List.length_pos_iff.mp hup
  constructor
  · exact handle_terminates hsettled hpeers
  · intro c r hr hfd
    by_cases hopen : r.isOpen = true
    · have hnone : r.upcStatus ≠ .none ∧ r.upcStatus ≠ .close := by
        rcases isOpen_iff.mp hopen with h | h <;> simp [h]
      have hfd' : Offered (closedUpstream w c r) o := by simpa [Offered, Fresh] using hfd
      have hpeers' : (closedUpstream w c r).ln.srvcf.upstream ≠ [] := by simpa using hpeers
      rw [final_returns hr hnone.1 hnone.2,
        handle_terminates (settled_final hsettled c r) hpeers' hfd', closed_terminates hr]
      simp [hopen]
    · have hclosed : r.isOpen = false := by simpa using hopen
      have hstatus := closed_upcStatus (hI.records.phase c r hr) hclosed
      have hget : (w.setSys (o.first 0)).conns.get c = some r := hr
      have hreturns : Returns (xUpstreamFinal c) w o :=
        ⟨0, (), _, final_closed hget hstatus xUpstreamHandle⟩
      simp [hreturns, hclosed]

def always (a : ConnectAnswer) : Outcomes where
  sockets := fun _ => some 20
  fcntls := fun _ => true
  connects := fun _ => a

theorem always_connects (a : ConnectAnswer) (j : ℕ) : (always a).Connects j := ⟨rfl, rfl, rfl⟩

theorem always_offered (a : ConnectAnswer) (h : w.fds 20 = none) : Offered w (always a) := by
  intro j fd _ hfd
  cases hfd
  exact ⟨by decide, h⟩

/-- The slot is taken and one client waits. Its holder is closed, and the
kernel hands out the same descriptor again. -/
theorem scheduler_returns_oneWaits : ∃ w : World, Reachable proxy w ∧
    w.ln.cqWaiting = [1] ∧ Returns (xUpstreamFinal 0) w (always .inProgress) := by
  have hplay : (play (fun _ _ => true) (listener (singlePeer 1) (initialPool true)) oneWaits).any
      (fun w => w.ln.cqWaiting = [1] ∧ w.ln.srvcf.upstream.length = 1 ∧
        (w.conns.get 0).any (fun r => r.upcFd = 20) ∧ (w.conns.get 1).isSome) = true := by
    decide +kernel
  obtain ⟨w,hr,hw⟩ := play_reaches _ (.start (singlePeer_start 1)) hplay
  obtain ⟨hqueue,hup,hholder,hhead⟩ := of_decide_eq_true hw
  obtain ⟨r,hget,hfd⟩ := (Option.any_eq_true _ _).mp hholder
  have hfd : r.upcFd = 20 := of_decide_eq_true hfd
  have hoffered : Offered (w.closeFd r.upcFd) (always .inProgress) := by
    apply always_offered
    simp [hfd]
  have hlinked : Linked w 1 := by simp [Linked, neighbours, hqueue]
  have hends : Terminates w (w.ln.workingNum-1) (always .inProgress) := by
    refine Or.inr (Or.inr ⟨1, by simp [hqueue], Option.isSome_iff_ne_none.mp hhead, 0, ?_⟩)
    exact ⟨by simp, by simp [Outcomes.Refused, always], fun _ => hlinked⟩
  exact ⟨w, hr.reachable, hqueue,
    (((scheduler_returns hr.reachable (by omega) _).2 0 r hget hoffered).mpr (Or.inr hends))⟩

/-- A client waits beside a free slot, and every `connect` fails at once. -/
theorem scheduler_loops : ∃ (w : World) (o : Outcomes), Reachable proxy w ∧
    1 ≤ w.ln.srvcf.upstream.length ∧ Offered w o ∧ ¬ Returns xUpstreamHandle w o := by
  have hplay : (play (fun _ _ => true) (listener (singlePeer 1) (initialPool true)) unserved).any
      (fun w => w.ln.cqWaiting = [0] ∧ w.ln.workingNum < w.ln.srvcf.workingNumMax ∧
        w.ln.srvcf.upstream.length = 1 ∧ w.fds 20 = none) = true := by
    decide +kernel
  obtain ⟨w,hr,hw⟩ := play_reaches _ (.start (singlePeer_start 1)) hplay
  obtain ⟨hqueue,hfree,hup,hfd⟩ := of_decide_eq_true hw
  have hoffered := always_offered .error hfd
  have hpeers : w.ln.srvcf.upstream ≠ [] := List.length_pos_iff.mp (by omega)
  refine ⟨w, always .error, hr.reachable, by omega, hoffered, ?_⟩
  rw [handle_terminates (settled_inv (reaches_inv hr)) hpeers hoffered]
  rintro (h | h | ⟨c,-,-,j,-,hj,-⟩)
  · simp [hqueue] at h
  · omega
  · exact hj ⟨always_connects .error j, rfl⟩

end TcpFunnel.SchedulerTermination
