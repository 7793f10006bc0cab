import Mathlib.Data.List.Nodup
import TcpFunnel.Invariants

/-!
# The waiting queue under every action

The queue changes in three actions only: a client enters at its end, leaves
from its head when promoted, or leaves from anywhere when it is closed while
waiting.
-/

set_option autoImplicit false

namespace TcpFunnel.QueueInvariant
open TcpFunnel.BufferPool TcpFunnel.Connection TcpFunnel.Actions TcpFunnel.Invariants

variable {o : Option ConnId} {s t : Stage}

theorem same_queue (hq : Queue s) (hcq : t.w.ln.cqWaiting = s.w.ln.cqWaiting)
    (hnum : t.w.ln.cqWaitingNum = s.w.ln.cqWaitingNum) (hnext : s.w.conns.next ≤ t.w.conns.next)
    (hconn : ∀ c r', t.w.conns.get c = some r' →
      (∃ r, s.w.conns.get c = some r ∧ (r'.status = .waiting ↔ r.status = .waiting) ∧
        r'.isOpen = r.isOpen) ∨ (c ∉ s.w.ln.cqWaiting ∧ r'.status ≠ .waiting))
    (hbusy : ∀ c, s.busy = .closing c → c ∈ s.w.ln.cqWaiting → t.w.conns.get c ≠ none →
      t.busy = .closing c)
    (hdue : t.due = true → ∀ c, t.busy = .closing c → c ∉ s.w.ln.cqWaiting) : Queue t where
  nodup := hcq ▸ hq.nodup
  num := by rw [hnum, hcq, hq.num]
  lt := by
    rw [hcq]
    exact fun c hc => Nat.lt_of_lt_of_le (hq.lt c hc) hnext
  mem := by
    intro c hc r hr
    rw [hcq] at hc
    rcases hconn c r hr with ⟨r0,h0,hs,ho⟩ | ⟨hn,-⟩
    · obtain ⟨hw,hn⟩ := hq.mem c hc r0 h0
      rw [hs, ho]
      exact ⟨hw.imp_right (fun h => hbusy c h hc (by simp [hr])), hn⟩
    · exact absurd hc hn
  all := by
    intro c r hr hw
    rw [hcq]
    rcases hconn c r hr with ⟨r0,h0,hs,-⟩ | ⟨-,hn⟩
    · exact hq.all c r0 h0 (hs.mp hw)
    · exact absurd hw hn
  due := by rw [hcq]; exact hdue

theorem same_queue_put (hq : Queue s) {c : ConnId} {r r' : XtpConn}
    (hr : s.w.conns.get c = some r) (hput : t.w.conns = s.w.conns.set c r')
    (hcq : t.w.ln.cqWaiting = s.w.ln.cqWaiting)
    (hnum : t.w.ln.cqWaitingNum = s.w.ln.cqWaitingNum)
    (hs : (r'.status = .waiting ↔ r.status = .waiting) ∧ r'.isOpen = r.isOpen ∨
      c ∉ s.w.ln.cqWaiting ∧ r'.status ≠ .waiting)
    (hbusy : ∀ c, s.busy = .closing c → c ∈ s.w.ln.cqWaiting → t.w.conns.get c ≠ none →
      t.busy = .closing c)
    (hdue : t.due = true → ∀ c, t.busy = .closing c → c ∉ s.w.ln.cqWaiting) : Queue t := by
  refine same_queue hq hcq hnum (by rw [hput]; exact Nat.le_refl _) ?_ hbusy hdue
  intro d rd hd
  rw [hput, Store.set_some] at hd
  rcases hd with ⟨rfl,rfl⟩ | ⟨-,hd⟩
  · exact hs.imp_left (fun h => ⟨r, hr, h⟩)
  · exact Or.inl ⟨rd, hd, Iff.rfl, rfl⟩

theorem leave_queue (hq : Queue s) {c : ConnId} {r' : XtpConn}
    (hput : t.w.conns = s.w.conns.set c r') (hcq : t.w.ln.cqWaiting = s.w.ln.cqWaiting.erase c)
    (hnum : t.w.ln.cqWaitingNum = s.w.ln.cqWaitingNum-1) (hc : c ∈ s.w.ln.cqWaiting)
    (hs : r'.status ≠ .waiting) (hbusy : t.busy = s.busy) (hdue : t.due = false) : Queue t where
  nodup := by rw [hcq]; exact hq.nodup.erase c
  num := by
    have hpos := List.length_pos_of_mem hc
    rw [hnum, hcq, hq.num, List.length_erase_of_mem hc]
    omega
  lt := by
    intro d hd
    rw [hcq] at hd
    rw [hput]
    exact hq.lt d (List.mem_of_mem_erase hd)
  mem := by
    intro d hd r hr
    rw [hcq, hq.nodup.mem_erase_iff] at hd
    rw [hput, Store.set_some] at hr
    rcases hr with ⟨rfl,-⟩ | ⟨-,hr⟩
    · exact absurd rfl hd.1
    · rw [hbusy]
      exact hq.mem d hd.2 r hr
  all := by
    intro d r hr hw
    rw [hput, Store.set_some] at hr
    rcases hr with ⟨-,rfl⟩ | ⟨hne,hr⟩
    · exact absurd hw hs
    · rw [hcq, hq.nodup.mem_erase_iff]
      exact ⟨hne, hq.all d r hr hw⟩
  due := by simp [hdue]

theorem enter_queue (hR : Records s) (hq : Queue s) {c : ConnId} {r r' : XtpConn}
    (hr : s.w.conns.get c = some r) (hnone : r.status = .none)
    (hput : t.w.conns = s.w.conns.set c r') (hcq : t.w.ln.cqWaiting = s.w.ln.cqWaiting ++ [c])
    (hnum : t.w.ln.cqWaitingNum = s.w.ln.cqWaitingNum+1) (hs : r'.status = .waiting)
    (ho : r'.isOpen = r.isOpen) (hbusy : t.busy = s.busy)
    (hidle : ∀ c, s.busy ≠ .closing c) : Queue t := by
  have hnew : c ∉ s.w.ln.cqWaiting := by
    intro hc
    rcases (hq.mem c hc r hr).1 with h | h
    · rw [hnone] at h; cases h
    · exact hidle c h
  have hclosed : r.isOpen = false := by
    have hn := (hR.phase c r hr).ofNone hnone
    simp [XtpConn.isOpen, hn]
  constructor
  · rw [hcq, List.nodup_append]
    exact ⟨hq.nodup, List.nodup_singleton c, fun a ha b hb hab =>
      hnew (by rw [List.mem_singleton] at hb; rwa [hab, hb] at ha)⟩
  · rw [hnum, hcq, hq.num]
    simp
  · intro d hd
    rw [hput, Store.set_next]
    rw [hcq, List.mem_append, List.mem_singleton] at hd
    rcases hd with hd | rfl
    · exact hq.lt d hd
    · exact hR.wellFormed.lt hr
  · intro d hd rd hrd
    rw [hput, Store.set_some] at hrd
    rw [hcq, List.mem_append, List.mem_singleton] at hd
    rcases hrd with ⟨rfl,rfl⟩ | ⟨hne,hrd⟩
    · exact ⟨Or.inl hs, by rw [ho]; exact hclosed⟩
    · rw [hbusy]
      exact hq.mem d (hd.resolve_right hne) rd hrd
  · intro d rd hrd hw
    rw [hput, Store.set_some] at hrd
    rw [hcq, List.mem_append, List.mem_singleton]
    rcases hrd with ⟨rfl,-⟩ | ⟨-,hrd⟩
    · exact Or.inr rfl
    · exact Or.inl (hq.all d rd hrd hw)
  · intro _ d hb
    exact absurd (hbusy ▸ hb) (hidle d)

theorem scheduled_mem {w : World} {c : ConnId} (h : Scheduled w c) : c ∈ w.ln.cqWaiting :=
  List.mem_of_mem_head? h.1

/-- The scheduler only runs while the client at the head of the queue is not
the one being closed, so that client waits and has no open upstream. -/
theorem scheduled_waiting (hq : Queue s) (hd : s.due = true) {c : ConnId} {r : XtpConn}
    (h : Scheduled s.w c) (hr : s.w.conns.get c = some r) :
    r.status = .waiting ∧ r.isOpen = false := by
  have hm := scheduled_mem h
  obtain ⟨hw,ho⟩ := hq.mem c hm r hr
  refine ⟨hw.resolve_right (fun hb => hq.due hd c hb hm), ho⟩

theorem open_off_queue (hq : Queue s) {c : ConnId} {r : XtpConn}
    (hr : s.w.conns.get c = some r) (ho : r.isOpen) : c ∉ s.w.ln.cqWaiting := by
  intro hc
  have hf := (hq.mem c hc r hr).2
  rw [hf] at ho
  cases ho

theorem timeOut_queue (hq : Queue s) {c : ConnId} {r : XtpConn}
    (hr : s.w.conns.get c = some r) (hidle : s.busy = .idle)
    (hput : t.w = s.w.putConn c { r with status := .timeout }) (hbusy : t.busy = .closing c)
    (hdue : t.due = false) : Queue t := by
  have hcq : t.w.ln = s.w.ln := by rw [hput]; rfl
  constructor
  · exact hcq ▸ hq.nodup
  · rw [hcq]; exact hq.num
  · rw [hcq, hput]; exact hq.lt
  · intro d hd rd hrd
    rw [hcq] at hd
    rw [hput, World.putConn_conns, Store.set_some] at hrd
    rcases hrd with ⟨rfl,rfl⟩ | ⟨-,hrd⟩
    · exact ⟨Or.inr hbusy, (hq.mem d hd r hr).2⟩
    · obtain ⟨hw,ho⟩ := hq.mem d hd rd hrd
      exact ⟨Or.inl (hw.resolve_right (by simp [hidle])), ho⟩
  · intro d rd hrd hw
    rw [hput, World.putConn_conns, Store.set_some] at hrd
    rcases hrd with ⟨-,rfl⟩ | ⟨-,hrd⟩
    · cases hw
    · rw [hcq]; exact hq.all d rd hrd hw
  · simp [hdue]

theorem act_queue (h : Act o s t) (hR : Records s) (hq : Queue s) : Queue t := by
  have same : ∀ c r', s.w.conns.get c = some r' →
      (∃ r, s.w.conns.get c = some r ∧ (r'.status = .waiting ↔ r.status = .waiting) ∧
        r'.isOpen = r.isOpen) ∨ (c ∉ s.w.ln.cqWaiting ∧ r'.status ≠ .waiting) :=
    fun c r h => Or.inl ⟨r, h, Iff.rfl, rfl⟩
  cases h with
  | answers | mallocs | countMax | addBlock | stopUpcTimer =>
    exact same_queue hq rfl rfl (Nat.le_refl _) same (fun _ h _ _ => h) hq.due
  | pass => exact same_queue hq rfl rfl (Nat.le_refl _) same (fun _ h _ _ => h) (by simp)
  | beginFill | fill | lose | answered | drain | leak | restClient | restUpstream | doom
  | stopTimer =>
    exact same_queue hq rfl rfl (Nat.le_refl _) same (by simp) (by simp)
  | requested =>
    split <;> exact same_queue hq rfl rfl (Nat.le_refl _) same (by simp) (by simp)
  | link hr =>
    exact same_queue_put hq hr rfl rfl rfl (Or.inl (by simp)) (by simp) (by simp)
  | unlink hr =>
    exact same_queue_put hq hr rfl rfl rfl (Or.inl (by simp)) (fun _ h _ _ => h) (by simp)
  | enqueue hr hs =>
    exact enter_queue hR hq hr hs rfl rfl rfl rfl rfl rfl (by simp)
  | noSocket leaked _ _ hr =>
    exact same_queue_put hq hr (abandoned_conns ..) (by simp) (by simp) (Or.inl ⟨Iff.rfl, rfl⟩)
      (fun _ h _ _ => h) (by simp)
  | promote hs _ hr =>
    exact leave_queue hq (promoted_conns ..) (by simp) (by simp) (scheduled_mem hs)
      (by simp) rfl rfl
  | refuse hs _ hr =>
    obtain ⟨hw,ho⟩ := scheduled_waiting hq rfl hs hr
    refine same_queue_put hq hr (closedUpstream_conns ..) (by simp) (by simp)
      (Or.inl ⟨Iff.rfl, ?_⟩) (fun _ h _ _ => h) (fun _ => hq.due rfl)
    rw [ho]
    simp [XtpConn.isOpen]
  | connect _ hr hup =>
    refine same_queue_put hq hr rfl rfl rfl (Or.inl ⟨Iff.rfl, ?_⟩) (by simp) (by simp)
    simp [XtpConn.isOpen, hup]
  | @closeUpstream _ busy _ _ c r hr hup hbusy =>
    have hc := open_off_queue hq hr hup
    refine same_queue_put hq hr (closedUpstream_conns ..) (by simp) (by simp)
      (Or.inr ⟨hc, fun hw => hc (hq.all c r hr hw)⟩) ?_ ?_
    · intro d hd _ _
      simp [show busy = _ from hd, afterClosing]
    · intro _ d hd
      rcases hbusy with rfl | ⟨p,rfl⟩ | rfl <;> simp [afterClosing] at hd
      exact hd ▸ hc
  | timeOut hr => exact timeOut_queue hq hr rfl rfl rfl rfl
  | @closeClient _ _ _ c r hr hs hup =>
    by_cases hw : r.status = .waiting
    · exact leave_queue hq (closedClient_conns ..) (by simp [hw]) (by simp [hw])
        (hq.all c r hr hw) (by simp) rfl rfl
    · refine same_queue_put hq hr (closedClient_conns ..) (by simp [hw]) (by simp [hw])
        (Or.inl ⟨by simp [hw], rfl⟩) (fun _ h _ _ => h) (by simp)
  | @settle _ _ _ c r hr hs hc =>
    refine same_queue hq rfl rfl (Nat.le_refl _) same ?_ (by simp)
    intro d hd hm _
    cases hd
    exact absurd hm hc
  | @free _ _ _ c =>
    refine same_queue hq rfl rfl (Nat.le_refl _) ?_ ?_ (by simp)
    · intro d rd hrd
      exact same d rd (((Store.free_some ..).mp hrd).2)
    · intro d hd _ hg
      cases hd
      simp at hg
  | welcome =>
    refine same_queue hq (by simp) (by simp) (by simp) ?_ (by simp) (by simp)
    intro d rd hrd
    rw [admitted_conns, (accepted_frame ..).2.2.1, Store.push_some] at hrd
    rcases hrd with ⟨rfl,rfl⟩ | ⟨-,hrd⟩
    · exact Or.inr ⟨fun h => absurd (hq.lt _ h) (Nat.lt_irrefl _), by simp [Access.newConn]⟩
    · exact same d rd hrd
  | turnAway =>
    refine same_queue hq (by simp) (by simp) (by simp) ?_ (by simp) (by simp)
    intro d rd hrd
    rw [(World.closeFd_frame ..).2.2.1, (accepted_frame ..).2.2.1] at hrd
    exact same d rd hrd

end TcpFunnel.QueueInvariant
