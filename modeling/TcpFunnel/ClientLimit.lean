import TcpFunnel.Runs
import TcpFunnel.Library.Census

/-!
# The client limit

`c_count` counts the records whose client has not been closed. A record is
counted when it is created, below the limit, and is taken off once, when its
status becomes `close`; the delayed free of the closed record does not matter.
-/

set_option autoImplicit false

namespace TcpFunnel.ClientLimit
open TcpFunnel.BufferPool TcpFunnel.Connection TcpFunnel.EventLoop TcpFunnel.Reachability
open TcpFunnel.Actions TcpFunnel.Invariants TcpFunnel.QueueInvariant TcpFunnel.StageInvariant
open TcpFunnel.Runs

def clientNum (w : World) : ℕ := (w.conns.names fun r => decide (r.status ≠ .close)).card

structure Limited (s : Stage) : Prop where
  num : s.w.ln.cCount = clientNum s.w
  le : s.w.ln.cCount ≤ max s.w.ln.srvcf.accessMax 0

variable {o : Option ConnId} {s t : Stage}

theorem same_limited (hL : Limited s) (hnum : clientNum t.w = clientNum s.w)
    (hcount : t.w.ln.cCount = s.w.ln.cCount)
    (hmax : t.w.ln.srvcf.accessMax = s.w.ln.srvcf.accessMax) : Limited t := by
  constructor
  · rw [hcount, hnum]
    exact hL.num
  · rw [hcount, hmax]
    exact hL.le

theorem limited_put (hL : Limited s) (hR : Records s) {c : ConnId} {r r' : XtpConn}
    (hr : s.w.conns.get c = some r) (hput : t.w.conns = s.w.conns.set c r')
    (hs : r'.status = .close ↔ r.status = .close) (hcount : t.w.ln.cCount = s.w.ln.cCount)
    (hmax : t.w.ln.srvcf.accessMax = s.w.ln.srvcf.accessMax) : Limited t := by
  apply same_limited hL _ hcount hmax
  unfold clientNum
  rw [hput]
  apply congrArg Finset.card
  apply Store.names_set hR.wellFormed hr
  simp [hs]

theorem act_limited (h : Act o s t) (hI : Inv s) (hL : Limited s) : Limited t := by
  have hR := hI.records
  cases h with
  | answers | mallocs | countMax | addBlock | beginFill | fill | lose | answered | drain | leak
  | restClient | restUpstream | pass | doom | settle | stopTimer | stopUpcTimer =>
    exact same_limited hL rfl rfl rfl
  | requested => split <;> exact same_limited hL rfl rfl rfl
  | link hr => exact limited_put hL hR hr rfl (by simp) rfl rfl
  | unlink hr => exact limited_put hL hR hr rfl (by simp) rfl rfl
  | enqueue hr hs => exact limited_put hL hR hr rfl (by simp [hs]) rfl rfl
  | timeOut hr hs => exact limited_put hL hR hr rfl (by simp [hs]) rfl rfl
  | noSocket leaked hs hi hr =>
    exact limited_put hL hR hr (abandoned_conns ..) Iff.rfl (by simp [chosen]) (by simp [chosen])
  | promote hs hi hr =>
    have hw := (scheduled_waiting hI.queue rfl hs hr).1
    exact limited_put hL hR hr (promoted_conns ..) (by simp [hw]) (by simp [chosen])
      (by simp [chosen])
  | refuse hs hi hr =>
    exact limited_put hL hR hr (closedUpstream_conns ..) Iff.rfl (by simp [chosen])
      (by simp [chosen])
  | connect timeout hr =>
    exact limited_put hL hR hr (connected_conns ..) Iff.rfl (by simp) (by simp)
  | closeUpstream hr =>
    exact limited_put hL hR hr (closedUpstream_conns ..) Iff.rfl (by simp) (by simp)
  | @closeClient w fs is c r hr hs =>
    have hone : clientNum (closedClient w c r)+1 = clientNum w := by
      unfold clientNum
      rw [closedClient_conns]
      exact Store.card_names_erase hR.wellFormed hr (by simp [hs]) (by simp)
    obtain ⟨hnum,hle⟩ := hL
    simp only at hnum hle
    constructor
    · simp only [closedClient_ln]
      omega
    · simp only [closedClient_ln]
      omega
  | free hr hs =>
    refine same_limited hL ?_ rfl rfl
    unfold clientNum
    rw [freed_conns, Store.names_free hR.wellFormed hr (by simp [hs])]
  | @welcome w fs is fd hfd hmax =>
    have hone : clientNum (admitted (accepted w fd) fd) = clientNum w+1 := by
      unfold clientNum
      have hconns : (accepted w fd).conns = w.conns := (accepted_frame ..).2.2.1
      rw [admitted_conns, hconns]
      exact Store.card_names_push hR.wellFormed rfl
    obtain ⟨hnum,hle⟩ := hL
    simp only at hnum hle
    constructor
    · simp only [admitted_frame, accepted_frame]
      omega
    · simp only [admitted_frame, accepted_frame]
      omega
  | turnAway =>
    apply same_limited hL _ (by simp) (by simp)
    simp [clientNum]

theorem start_limited {w : World} (h : Start w) : Limited (rest w) := by
  obtain ⟨srvcf,mallocs,heap,-,-,-,rfl⟩ := h
  constructor
  · rfl
  · exact le_max_right _ _

/-- Between two callbacks `c_count` is the number of clients that are not
closed, and no more than `access.max`. -/
theorem count_exact {w : World} (h : Reachable proxy w) (hmax : 0 ≤ w.ln.srvcf.accessMax) :
    w.ln.cCount = clientNum w ∧ 0 ≤ w.ln.cCount ∧ w.ln.cCount ≤ w.ln.srvcf.accessMax := by
  have hL : Limited (rest w) :=
    reaches_along Limited (fun _ h => start_limited h) (fun _ _ h => ⟨h.num, h.le⟩)
      (fun _ _ hI hL ha => act_limited ha hI hL) (fun _ _ _ _ _ _ _ hL => ⟨hL.num, hL.le⟩) h
  have hnum : w.ln.cCount = clientNum w := hL.num
  have hle : w.ln.cCount ≤ max w.ln.srvcf.accessMax 0 := hL.le
  have hpos : 0 ≤ w.ln.cCount := by
    rw [hnum]
    exact Int.natCast_nonneg _
  exact ⟨hnum, hpos, by omega⟩

theorem count_exact_oneLeft :
    ∃ w, clientNum w = 1 ∧ (w.conns.get 0).isSome ∧ w.ln.cCount = 1 ∧
      w.ln.cCount ≤ w.ln.srvcf.accessMax := by
  have hplay : (play (fun _ _ => true) (listener (singlePeer 1) (initialPool true))
      [comes 5, comes 6, { event := .fire 0 .eRecv, sys := { recvs := [.got []] } }]).any
      (fun w => decide (clientNum w = 1) && (w.conns.get 0).isSome &&
        decide (0 ≤ w.ln.srvcf.accessMax)) = true := by
    decide +kernel
  obtain ⟨w,hr,hw⟩ := play_reaches _ (.start (singlePeer_start 1)) hplay
  obtain ⟨hw,hmax⟩ := Bool.and_eq_true_iff.mp hw
  obtain ⟨hone,hsome⟩ := Bool.and_eq_true_iff.mp hw
  have hone := of_decide_eq_true hone
  obtain ⟨hnum,-,hle⟩ := count_exact hr.reachable (of_decide_eq_true hmax)
  exact ⟨w, hone, hsome, by omega, hle⟩

end TcpFunnel.ClientLimit
