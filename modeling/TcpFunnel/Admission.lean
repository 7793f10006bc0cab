import TcpFunnel.Runs
import TcpFunnel.Library.Fifo

/-!
# The order of admission

A client enters the waiting queue with its first request, is served by its
promotion and leaves the queue when it is closed. The queue is first in,
first out, in whatever nesting the scheduler and the closers call each other.
-/

set_option autoImplicit false

namespace TcpFunnel.Admission
open TcpFunnel.BufferPool TcpFunnel.Connection TcpFunnel.EventLoop TcpFunnel.Reachability
open TcpFunnel.Actions TcpFunnel.Invariants TcpFunnel.QueueInvariant TcpFunnel.StageInvariant
open TcpFunnel.StepSimulation TcpFunnel.Runs

variable {o : Option ConnId} {s t : Stage}

def queueEvent : Milestone → Option (Fifo.Event ConnId)
  | .inserted c => some (.entered c)
  | .promoted c => some (.served c)
  | .closed c => some (.left c)
  | .released _ => none

def admissions (log : List Milestone) : List (Fifo.Event ConnId) := log.filterMap queueEvent

@[simp] theorem admissions_append (xs ys : List Milestone) :
    admissions (xs ++ ys) = admissions xs ++ admissions ys := List.filterMap_append

@[simp] theorem admissions_inserted (c : ConnId) : admissions [.inserted c] = [.entered c] := rfl
@[simp] theorem admissions_promoted (c : ConnId) : admissions [.promoted c] = [.served c] := rfl
@[simp] theorem admissions_closed (c : ConnId) : admissions [.closed c] = [.left c] := rfl
@[simp] theorem admissions_released (c : ConnId) : admissions [.released c] = [] := rfl

structure Unqueued (s : Stage) : Prop where
  fresh : ∀ c r, s.w.conns.get c = some r → r.status = .none → .entered c ∉ admissions s.w.log
  bound : ∀ c, .entered c ∈ admissions s.w.log → c < s.w.conns.next

structure History (s : Stage) : Prop extends Unqueued s where
  ledger : Fifo.Ledger s.w.ln.cqWaiting (admissions s.w.log)

theorem same_unqueued (hU : Unqueued s)
    (hlog : ∀ c, .entered c ∈ admissions t.w.log → .entered c ∈ admissions s.w.log)
    (hnext : s.w.conns.next ≤ t.w.conns.next)
    (hnone : ∀ c r', t.w.conns.get c = some r' → r'.status = .none →
      (∃ r, s.w.conns.get c = some r ∧ r.status = .none) ∨ s.w.conns.next ≤ c) : Unqueued t where
  fresh := by
    intro c r' hr' hs hm
    rcases hnone c r' hr' hs with ⟨r,hr,hs⟩ | hle
    · exact hU.fresh c r hr hs (hlog c hm)
    · have hlt := hU.bound c (hlog c hm)
      omega
  bound := fun c hm => Nat.lt_of_lt_of_le (hU.bound c (hlog c hm)) hnext

theorem unqueued_put (hU : Unqueued s) {c : ConnId} {r r' : XtpConn}
    (hr : s.w.conns.get c = some r) (hput : t.w.conns = s.w.conns.set c r')
    (hs : r'.status = .none → r.status = .none)
    (hlog : ∀ c, .entered c ∈ admissions t.w.log → .entered c ∈ admissions s.w.log) :
    Unqueued t := by
  refine same_unqueued hU hlog (by rw [hput]; rfl) fun d rd hrd hn => Or.inl ?_
  rw [hput, Store.set_some] at hrd
  rcases hrd with ⟨rfl,rfl⟩ | ⟨-,hrd⟩
  · exact ⟨r, hr, hs hn⟩
  · exact ⟨rd, hrd, hn⟩

theorem same_history (hH : History s) (hconns : t.w.conns = s.w.conns)
    (hlog : admissions t.w.log = admissions s.w.log)
    (hcq : t.w.ln.cqWaiting = s.w.ln.cqWaiting) : History t := by
  refine ⟨same_unqueued hH.toUnqueued (by simp [hlog]) (by rw [hconns]) ?_, ?_⟩
  · intro c r hr hs
    rw [hconns] at hr
    exact Or.inl ⟨r, hr, hs⟩
  · rw [hlog, hcq]
    exact hH.ledger

theorem same_history_put (hH : History s) {c : ConnId} {r r' : XtpConn}
    (hr : s.w.conns.get c = some r) (hput : t.w.conns = s.w.conns.set c r')
    (hs : r'.status = .none → r.status = .none)
    (hlog : admissions t.w.log = admissions s.w.log)
    (hcq : t.w.ln.cqWaiting = s.w.ln.cqWaiting) : History t := by
  refine ⟨unqueued_put hH.toUnqueued hr hput hs (by simp [hlog]), ?_⟩
  rw [hlog, hcq]
  exact hH.ledger

theorem enqueue_history (hH : History s) (hI : Inv s) {c : ConnId} {r : XtpConn}
    (hr : s.w.conns.get c = some r) (hs : r.status = .none) (ht : t.w = enqueued s.w c r) :
    History t := by
  have hnew := hH.fresh c r hr hs
  have hlog : admissions t.w.log = admissions s.w.log ++ [.entered c] := by simp [ht]
  have hmem : ∀ d, .entered d ∈ admissions t.w.log → .entered d ∈ admissions s.w.log ∨ d = c := by
    intro d hd
    rw [hlog] at hd
    simpa using hd
  refine ⟨⟨fun d rd hrd hn hd => ?_, fun d hd => ?_⟩, ?_⟩
  · rw [ht, enqueued_conns, Store.set_some] at hrd
    rcases hrd with ⟨rfl,rfl⟩ | ⟨hne,hrd⟩
    · cases hn
    · exact hH.fresh d rd hrd hn ((hmem d hd).resolve_right hne)
  · have hlt : c < s.w.conns.next := hI.records.wellFormed.lt hr
    rw [ht]
    rcases hmem d hd with hd | rfl
    · exact hH.bound d hd
    · exact hlt
  · rw [hlog]
    simpa [ht] using hH.ledger.enter hnew

theorem promote_history (hH : History s) {c : ConnId} {r : XtpConn} {i : ℕ} {fd : ℤ}
    (hs : Scheduled s.w c) (hr : s.w.conns.get c = some r) (ht : t.w = promoted s.w c r i fd) :
    History t := by
  obtain ⟨rest,hrest⟩ : ∃ rest, s.w.ln.cqWaiting = c::rest := List.head?_eq_some_iff.mp hs.1
  have hput : t.w.conns = s.w.conns.set c { dialledConn r i fd with status := .working } := by
    rw [ht, promoted_conns]
  have hledger := hH.ledger
  rw [hrest] at hledger
  refine ⟨unqueued_put hH.toUnqueued hr hput (by simp) (by simp [ht]), ?_⟩
  simpa [ht, hrest] using hledger.serve

theorem close_history (hH : History s) {c : ConnId} {r : XtpConn}
    (hr : s.w.conns.get c = some r) (ht : t.w = closedClient s.w c r) : History t := by
  have hput : t.w.conns = s.w.conns.set c
      { r with timerRepeat := connFreeTimeout, status := .close } := by
    rw [ht, closedClient_conns]
  have hsub : t.w.ln.cqWaiting.Sublist s.w.ln.cqWaiting := by
    simp only [ht, closedClient_ln]
    split
    · exact List.erase_sublist
    · exact List.Sublist.refl _
  have hgone : ∀ b ∈ s.w.ln.cqWaiting, b ∉ t.w.ln.cqWaiting → b = c := by
    intro b hb hn
    simp only [ht, closedClient_ln] at hn
    by_contra hne
    split at hn
    · exact hn ((List.mem_erase_of_ne hne).mpr hb)
    · exact hn hb
  refine ⟨unqueued_put hH.toUnqueued hr hput (by simp) (by simp [ht]), ?_⟩
  simpa [ht] using hH.ledger.leave hsub hgone

theorem act_history (h : Act o s t) (hI : Inv s) (hH : History s) : History t := by
  cases h with
  | answers | mallocs | countMax | addBlock | beginFill | fill | lose | answered | drain | leak
  | restClient | restUpstream | pass | doom | settle | stopTimer | stopUpcTimer =>
    exact same_history hH rfl rfl rfl
  | requested => split <;> exact same_history hH rfl rfl rfl
  | link hr => exact same_history_put hH hr rfl (by simp) rfl rfl
  | unlink hr => exact same_history_put hH hr rfl (by simp) rfl rfl
  | enqueue hr hs => exact enqueue_history hH hI hr hs rfl
  | noSocket leaked hs hi hr =>
    exact same_history_put hH hr (abandoned_conns ..) id (by simp) (by simp)
  | promote hs hi hr => exact promote_history hH hs hr rfl
  | refuse hs hi hr => exact same_history_put hH hr (closedUpstream_conns ..) id (by simp) (by simp)
  | connect timeout hr => exact same_history_put hH hr (connected_conns ..) id (by simp) (by simp)
  | closeUpstream hr =>
    exact same_history_put hH hr (closedUpstream_conns ..) id (by simp) (by simp)
  | timeOut hr => exact same_history_put hH hr rfl (by simp) rfl rfl
  | closeClient hr => exact close_history hH hr rfl
  | free hr =>
    refine ⟨same_unqueued hH.toUnqueued (fun _ h => h) (Nat.le_refl _) fun d rd hrd hn => ?_,
      hH.ledger⟩
    exact Or.inl ⟨rd, ((Store.free_some ..).mp hrd).2, hn⟩
  | @welcome w fs is fd =>
    refine ⟨same_unqueued hH.toUnqueued (by simp) (by simp) fun d rd hrd hn => ?_, ?_⟩
    · rw [admitted_conns, (accepted_frame ..).2.2.1, Store.push_some] at hrd
      rcases hrd with ⟨rfl,-⟩ | ⟨-,hrd⟩
      · exact Or.inr (Nat.le_refl _)
      · exact Or.inl ⟨rd, hrd, hn⟩
    · simpa using hH.ledger
  | turnAway => exact same_history hH (by simp) (by simp) (by simp)

theorem start_history {w : World} (h : Start w) : History (rest w) := by
  obtain ⟨srvcf,mallocs,heap,-,-,-,rfl⟩ := h
  refine ⟨⟨fun c r hr => ?_, fun c hc => ?_⟩, Fifo.ledger_nil⟩
  · cases hr
  · cases hc

theorem reaches_history {w : World} (h : Reachable proxy w) : History (rest w) :=
  reaches_along History (fun _ h => start_history h) (fun _ _ h => same_history h rfl rfl rfl)
    (fun _ _ hI hH ha => act_history ha hI hH)
    (fun _ _ _ _ _ _ _ h => same_history h rfl rfl rfl) h

/-- What the history says of the queue and of the records between two callbacks. -/
structure Told (w : World) : Prop where
  order : (Fifo.services (admissions w.log) ++ w.ln.cqWaiting).Sublist
    (Fifo.entries (admissions w.log))
  accounted : ∀ c, .entered c ∈ admissions w.log →
    c ∈ w.ln.cqWaiting ∨ .served c ∈ admissions w.log ∨ .left c ∈ admissions w.log
  waiting : ∀ c r, w.conns.get c = some r → (r.status = .waiting ↔ c ∈ w.ln.cqWaiting)
  unasked : ∀ c r, w.conns.get c = some r → r.status = .none → .entered c ∉ admissions w.log

theorem reachable_told {w : World} (h : Reachable proxy w) : Told w := by
  have hI := reaches_inv h
  have hH := reaches_history h
  refine ⟨hH.ledger.order, hH.ledger.accounted, fun c r hr => ⟨hI.queue.all c r hr, fun hc => ?_⟩,
    hH.fresh⟩
  exact (hI.queue.mem c hc r hr).1.resolve_right (by simp [rest])

/-- In every moment each client has been queued at most once and promoted at
most once, and no promotion overtook a client that was queued before and
neither promoted nor closed. Between two callbacks those who wait are in the
queue, in the order in which they were queued. -/
theorem fifo_admission {w : World} (h : Moment w) :
    (Fifo.entries (admissions w.log)).Nodup ∧ (Fifo.services (admissions w.log)).Nodup ∧
    Fifo.Fair (admissions w.log) ∧
    (Fifo.services (admissions w.log)).Sublist (Fifo.entries (admissions w.log)) ∧
    (Reachable proxy w → Told w) := by
  obtain ⟨u,-,hH,-,hlog⟩ := moment_along History (fun _ h => start_history h)
    (fun _ _ h => same_history h rfl rfl rfl) (fun _ _ hI hH ha => act_history ha hI hH)
    (fun _ _ h => same_history h rfl rfl rfl) h
  rw [hlog]
  exact ⟨hH.ledger.nodup, hH.ledger.served_once, hH.ledger.fair, hH.ledger.served_in_order,
    reachable_told⟩

theorem fifo_admission_twice : ∃ w : World,
    admissions w.log = [.entered 0, .served 0, .entered 1, .served 1] ∧
    (Fifo.entries (admissions w.log)).Nodup ∧ (Fifo.services (admissions w.log)).Nodup ∧
    Fifo.Fair (admissions w.log) ∧
    (Fifo.services (admissions w.log)).Sublist (Fifo.entries (admissions w.log)) ∧
    (Reachable proxy w → Told w) := by
  have hplay : (play (fun _ _ => true) (listener (singlePeer 1) (initialPool true))
      (oneWaits ++ [ends 0 [.inProgress] [true, true]])).any (fun w =>
        admissions w.log = [.entered 0, .served 0, .entered 1, .served 1]) = true := by
    decide +kernel
  obtain ⟨w,hr,hw⟩ := play_reaches _ (.start (singlePeer_start 1)) hplay
  exact ⟨w, of_decide_eq_true hw, fifo_admission (.between hr.reachable)⟩

end TcpFunnel.Admission
