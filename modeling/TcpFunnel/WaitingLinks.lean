import TcpFunnel.QueueRuns
import TcpFunnel.Runs
import TcpFunnel.Library.Agreement

/-!
# The links of the waiting queue

`cq_waiting` is linked through the connection records themselves, and a record
may be freed while it is linked in. The pointers then stop at it exactly where
the list of names does.
-/

set_option autoImplicit false

namespace TcpFunnel.WaitingLinks
open TcpFunnel.BufferPool TcpFunnel.Connection TcpFunnel.Links TcpFunnel.Queue
open TcpFunnel.QueueRefinement TcpFunnel.QueueMacros TcpFunnel.QueueEdits TcpFunnel.QueueRuns
open TcpFunnel.Agreement

abbrev Links := Memory Unit ConnId

/-- The pointers lead through the names of the queue, freed ones among them. -/
structure Mirrors (m : Links) (w : World) : Prop where
  queued : Queued .tailq m () w.ln.cqWaiting
  live : ∀ c, m.live c = (w.conns.get c).isSome

variable {m m' : Links} {w w' : World} {c d : ConnId} {ys zs : List ConnId}

theorem setWord_freed {v : Option ConnId} {cell : Cell Unit ConnId} (h : ¬ Has m cell) :
    (setWord cell v).run m = .error .useAfterFree m := by
  unfold setWord
  simp only [EStateM.run_bind, access_freed h]

theorem getWord_freed {cell : Cell Unit ConnId} (h : ¬ Has m cell) :
    (getWord cell).run m = .error .useAfterFree m := by
  unfold getWord
  simp only [EStateM.run_bind, access_freed h]

theorem setBack_freed {cell cell' : Cell Unit ConnId} (h : ¬ Has m cell) :
    (setBack cell cell').run m = .error .useAfterFree m := by
  unfold setBack
  simp only [EStateM.run_bind, access_freed h]

theorem Mirrors.live_iff (h : Mirrors m w) : m.live c = true ↔ w.conns.get c ≠ none := by
  rw [h.live, Option.isSome_iff_ne_none]

theorem Mirrors.has_last (h : Mirrors m w) (ys : List ConnId) :
    Has m (lastCell (.first ()) ys) ↔ ∀ d ∈ ys.getLast?, w.conns.get d ≠ none := by
  rcases List.eq_nil_or_concat ys with rfl | ⟨us,x,rfl⟩
  · simp
  · simp [h.live_iff]

theorem touch_cases (cs : List ConnId) (w : World) :
    (touch cs).run w = if ∀ d ∈ cs, w.conns.get d ≠ none then .ok () w
      else .error .useAfterFree w := by
  rcases SchedulerSimulation.touch_run cs w with ⟨h,hlive⟩ | ⟨h,d,hd,hn⟩
  · rw [if_pos hlive, h]
  · rw [if_neg fun hlive => hlive d hd hn, h]

theorem insert_agrees (h : Mirrors m w) (hc : c ∉ w.ln.cqWaiting) :
    Agree Mirrors ((Queue.tailqInsertTail () c).run m) ((Connection.tailqInsertTail c).run w) := by
  have hback := h.queued.last
  have hcell := h.has_last w.ln.cqWaiting
  have hne : lastCell (.first ()) w.ln.cqWaiting ≠ (.next c : Cell Unit ConnId) := by
    intro heq
    rcases @within_lastCell _ _ () _ _ (List.Subset.refl w.ln.cqWaiting) with hf | ⟨x,hx,hf⟩
    · cases hf.symm.trans heq
    · cases hf.symm.trans heq
      exact hc hx
  have hworld : (Connection.tailqInsertTail c).run w =
      if ∀ d ∈ c::w.ln.cqWaiting.getLast?.toList, w.conns.get d ≠ none then
        .ok () (w.setLn fun ln => { ln with cqWaiting := w.ln.cqWaiting ++ [c] })
      else .error .useAfterFree w := by
    unfold Connection.tailqInsertTail
    by_cases hall : ∀ d ∈ c::w.ln.cqWaiting.getLast?.toList, w.conns.get d ≠ none
    · simp only [EStateM.run_bind, EStateM.run_get, touch_cases, if_pos hall]
      rfl
    · simp only [EStateM.run_bind, EStateM.run_get, touch_cases, if_neg hall]
  have hall : (∀ d ∈ c::w.ln.cqWaiting.getLast?.toList, w.conns.get d ≠ none) ↔
      w.conns.get c ≠ none ∧ ∀ d ∈ w.ln.cqWaiting.getLast?, w.conns.get d ≠ none := by
    simp
  rw [hworld]
  by_cases hlive : w.conns.get c = none
  · rw [if_neg fun hw => (hall.mp hw).1 hlive]
    unfold Queue.tailqInsertTail
    have hfreed : ¬ Has m (.next c) := by simp [h.live_iff, hlive]
    simp only [EStateM.run_bind, setWord_freed hfreed]
    rfl
  · have hclive : m.live c = true := h.live_iff.mpr hlive
    by_cases hhas : Has m (lastCell (.first ()) w.ln.cqWaiting)
    · rw [if_pos (hall.mpr ⟨hlive, hcell.mp hhas⟩)]
      obtain ⟨m',hrun,hin⟩ := tailqInsertTail_run hback h.queued.chain.2 hhas hclive hne
      rw [hrun]
      have hq : Queued .tailq m () (w.ln.cqWaiting ++ []) := by simpa using h.queued
      exact ⟨rfl, hin.queued hq (by simpa using hc), fun d =>
        (congrFun hin.live d).trans (h.live d)⟩
    · rw [if_neg fun hw => hhas (hcell.mpr (hall.mp hw).2)]
      have hnext : Has m (.next c) := has_next.mpr hclive
      unfold Queue.tailqInsertTail
      have hfreed : ¬ Has ((m.putWord (.next c) none).putBack (.next c)
          (lastCell (.first ()) w.ln.cqWaiting)) (lastCell (.first ()) w.ln.cqWaiting) := hhas
      simp [EStateM.run_bind, setWord_run, getBack_run, setBack_run, pointee_run, hclive, hback,
        setWord_freed hfreed, Agree]

theorem neighbours_split (hys : c ∉ ys) :
    neighbours (ys ++ c::zs) c = ys.getLast?.toList ++ zs.head?.toList := by
  have hall : ∀ x ∈ ys, (decide (x ≠ c)) = true := by
    intro x hx
    simpa using fun heq : x = c => hys (heq ▸ hx)
  unfold neighbours
  rw [List.takeWhile_append_of_pos hall, List.dropWhile_append_of_pos hall]
  simp

theorem remove_agrees (h : Mirrors m w) (hc : c ∈ w.ln.cqWaiting) :
    Agree Mirrors ((Queue.tailqRemove () c).run m) ((Connection.tailqRemove c).run w) := by
  obtain ⟨ys,zs,heq⟩ := List.append_of_mem hc
  have hq : Queued .tailq m () (ys ++ c::zs) := heq ▸ h.queued
  have hys : c ∉ ys := fun hmem =>
    (List.nodup_append.mp hq.nodup).2.2 c hmem c (by simp) rfl
  have hback : m.back (.next c) = some (lastCell (.first ()) ys) :=
    (backs_append.mp (hq.backs rfl)).2.1
  have hword := hq.word_next
  have hcell := h.has_last ys
  have hworld : (Connection.tailqRemove c).run w =
      if ∀ d ∈ c::(ys.getLast?.toList ++ zs.head?.toList), w.conns.get d ≠ none then
        .ok () (w.setLn fun ln => { ln with cqWaiting := ys ++ zs })
      else .error .useAfterFree w := by
    have herase : (ys ++ c::zs).erase c = ys ++ zs := by
      rw [List.erase_append_right _ hys, List.erase_cons_head]
    unfold Connection.tailqRemove
    by_cases hall : ∀ d ∈ c::(ys.getLast?.toList ++ zs.head?.toList), w.conns.get d ≠ none
    · simp only [EStateM.run_bind, EStateM.run_get, heq, List.mem_append, List.mem_cons, true_or,
        or_true, not_true_eq_false, if_false, neighbours_split hys, touch_cases, if_pos hall,
        herase]
      rfl
    · simp only [EStateM.run_bind, EStateM.run_get, heq, List.mem_append, List.mem_cons, true_or,
        or_true, not_true_eq_false, if_false, neighbours_split hys, touch_cases, if_neg hall]
  have hall : (∀ d ∈ c::(ys.getLast?.toList ++ zs.head?.toList), w.conns.get d ≠ none) ↔
      w.conns.get c ≠ none ∧ (∀ d ∈ ys.getLast?, w.conns.get d ≠ none) ∧
        ∀ d ∈ zs.head?, w.conns.get d ≠ none := by
    simp [or_imp, forall_and]
  rw [hworld]
  by_cases hlive : w.conns.get c = none
  · rw [if_neg fun hw => (hall.mp hw).1 hlive]
    have hfreed : ¬ Has m (.next c) := by simp [h.live_iff, hlive]
    unfold Queue.tailqRemove
    simp only [EStateM.run_bind, getWord_freed hfreed]
    rfl
  have hclive : m.live c = true := h.live_iff.mpr hlive
  by_cases hzs : ∀ d ∈ zs.head?, w.conns.get d ≠ none
  · by_cases hhas : Has m (lastCell (.first ()) ys)
    · rw [if_pos (hall.mpr ⟨hlive, hcell.mp hhas, hzs⟩)]
      obtain ⟨m',hrun,hout⟩ := tailqRemove_run () hback hhas hclive
        fun z hz => h.live_iff.mpr (hzs z (hword ▸ hz))
      rw [hrun]
      exact ⟨rfl, hout.queued hq, fun d => (congrFun hout.live d).trans (h.live d)⟩
    · rw [if_neg fun hw => hhas (hcell.mpr (hall.mp hw).2.1)]
      unfold Queue.tailqRemove
      cases hz : zs.head? with
      | none =>
        rw [hz] at hword
        have hfreed : ¬ Has (m.putBack (.first ()) (lastCell (.first ()) ys))
          (lastCell (.first ()) ys) := hhas
        simp [EStateM.run_bind, getWord_run, getBack_run, setBack_run, pointee_run, hclive, hback,
          hword, setWord_freed hfreed, Agree]
      | some z =>
        rw [hz] at hword
        have hzlive : m.live z = true := h.live_iff.mpr (hzs z hz)
        have hfreed : ¬ Has (m.putBack (.next z) (lastCell (.first ()) ys))
          (lastCell (.first ()) ys) := hhas
        simp [EStateM.run_bind, getWord_run, getBack_run, setBack_run, pointee_run, hclive, hback,
          hword, hzlive, setWord_freed hfreed, Agree]
  · rw [if_neg fun hw => hzs (hall.mp hw).2.2]
    obtain ⟨z,hz,hznone⟩ : ∃ z, zs.head? = some z ∧ w.conns.get z = none := by
      simpa using hzs
    rw [hz] at hword
    have hfreed : ¬ Has m (.next z) := by simp [h.live_iff, hznone]
    unfold Queue.tailqRemove
    simp [EStateM.run_bind, getWord_run, getBack_run, pointee_run, hclive, hback, hword,
      setBack_freed hfreed, Agree]

inductive Event where
  | insert (c : ConnId)
  | remove (c : ConnId)
  | create (c : ConnId) (r : XtpConn)
  | free (c : ConnId)

/-- A record is linked in while it is in no queue, and unlinked while it is in
this one. -/
def Fit (w : World) : Event → Prop
  | .insert c => c ∉ w.ln.cqWaiting
  | .remove c => c ∈ w.ln.cqWaiting
  | .create c _ => c = w.conns.next
  | .free _ => True

def Event.call : Event → Callback Unit
  | .insert c => Connection.tailqInsertTail c
  | .remove c => Connection.tailqRemove c
  | .create _ r => modify fun w => { w with conns := w.conns.push r }
  | .free c => modify fun w => { w with conns := w.conns.free c }

def Event.links : Event → Macro Unit ConnId Unit
  | .insert c => Queue.tailqInsertTail () c
  | .remove c => Queue.tailqRemove () c
  | .create c _ => setLive c true
  | .free c => setLive c false

def calls : List Event → Callback Unit
  | [] => pure ()
  | e::es => do
    e.call
    calls es

def linked : List Event → Macro Unit ConnId Unit
  | [] => pure ()
  | e::es => do
    e.links
    linked es

def Fits : World → List Event → Prop
  | _, [] => True
  | w, e::es => Fit w e ∧
    match e.call.run w with
    | .ok () w' => Fits w' es
    | .error .. => True

theorem setLive_mirrors (h : Mirrors m w) {s : Store XtpConn} (on : Bool)
    (hs : ∀ d, (s.get d).isSome = if d = c then on else (w.conns.get d).isSome) :
    ∃ m', (setLive c on : Macro Unit ConnId Unit).run m = .ok () m' ∧
      Mirrors m' { w with conns := s } := by
  refine ⟨{ m with live := Function.update m.live c on }, rfl,
    ⟨h.queued.nodup, h.queued.chain, h.queued.last, h.queued.backs⟩, fun d => ?_⟩
  simp only [hs, Function.update_apply, h.live]

theorem event_agrees (h : Mirrors m w) {e : Event} (he : Fit w e) :
    Agree Mirrors (e.links.run m) (e.call.run w) := by
  cases e with
  | insert c => exact insert_agrees h he
  | remove c => exact remove_agrees h he
  | create c r =>
    obtain ⟨m',hrun,hm⟩ := setLive_mirrors h (c := c) (s := w.conns.push r) true fun d => by
      rw [Store.push_get, ← (he : c = w.conns.next)]
      split <;> simp_all
    unfold Event.links
    rw [hrun]
    exact ⟨rfl, hm⟩
  | free c =>
    obtain ⟨m',hrun,hm⟩ := setLive_mirrors h (c := c) (s := w.conns.free c) false fun d => by
      rw [Store.free_get]
      split <;> simp_all
    unfold Event.links
    rw [hrun]
    exact ⟨rfl, hm⟩

/-- Over any sequence of events the pointers come back where the names do, and
stop at a freed record where the names do. -/
theorem waiting_links_agree (es : List Event) (h : Mirrors m w) (hfit : Fits w es) :
    Agree Mirrors ((linked es).run m) ((calls es).run w) := by
  induction es generalizing m w with
  | nil => exact ⟨rfl, h⟩
  | cons e es ih =>
    obtain ⟨he,hrest⟩ := hfit
    refine (event_agrees h he).bind fun _ m' w' _ hw hm => ?_
    rw [hw] at hrest
    exact ih hm hrest

theorem start_mirrors {w : World} (h : EventLoop.Start w) :
    Mirrors (initialised fun _ => false) w := by
  obtain ⟨srvcf,mallocs,heap,-,-,-,rfl⟩ := h
  exact ⟨⟨List.nodup_nil, chain_nil.mpr rfl, rfl, fun _ => trivial⟩, fun _ => rfl⟩

def dangling : List Event :=
  [.create 0 (Access.newConn 5 10), .create 1 (Access.newConn 6 10), .insert 0, .insert 1, .free 1,
    .remove 0]

theorem waiting_links_agree_dangling :
    Agree Mirrors ((linked dangling).run (initialised fun _ => false))
      ((calls dangling).run
        (EventLoop.listener (Runs.singlePeer 1) (StageInvariant.initialPool true))) :=
  waiting_links_agree dangling (start_mirrors (Runs.singlePeer_start 1))
    ⟨rfl, rfl, List.not_mem_nil, (by decide : 1 ∉ [0]), trivial, (by decide : 0 ∈ [0, 1]), trivial⟩

end TcpFunnel.WaitingLinks
