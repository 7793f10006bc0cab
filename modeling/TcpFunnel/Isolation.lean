import TcpFunnel.Runs

/-!
# The isolation of connections

A callback of one connection acts on the records of the others only through
the scheduler, which takes the head of the waiting queue. That head keeps its
client side, and every other record stays as it is.
-/

set_option autoImplicit false

namespace TcpFunnel.Isolation
open TcpFunnel.BufferPool TcpFunnel.Connection TcpFunnel.EventLoop TcpFunnel.Reachability
open TcpFunnel.Actions TcpFunnel.Invariants TcpFunnel.QueueInvariant TcpFunnel.RecordInvariant
open TcpFunnel.BufferInvariant TcpFunnel.StageInvariant TcpFunnel.StepSimulation TcpFunnel.Runs

/-- The record `d` with its watchers, its descriptors and the contents of its
pipes is the same. -/
structure Untouched (w w' : World) (d : ConnId) : Prop where
  conn : w'.conns.get d = w.conns.get d
  loop : w'.loop d = w.loop d
  fds : ∀ fd side, w'.fds fd = some ⟨d, side⟩ ↔ w.fds fd = some ⟨d, side⟩
  bufs : ∀ p, ∀ b ∈ w.pipes d p, w'.heap.bufs.get b = w.heap.bufs.get b

/-- The client side of the record `d` is the same. -/
structure Kept (w w' : World) (d : ConnId) : Prop where
  conn : ∀ r, w.conns.get d = some r → ∃ r', w'.conns.get d = some r' ∧ r'.fd = r.fd ∧
    r'.timerRepeat = r.timerRepeat ∧ r'.pipe1 = r.pipe1 ∧ r'.pipe2 = r.pipe2
  gone : w.conns.get d = none → w'.conns.get d = none
  eRecv : w'.loop d .eRecv = w.loop d .eRecv
  eTimer : w'.loop d .eTimer = w.loop d .eTimer
  fds : ∀ fd, w'.fds fd = some ⟨d, .client⟩ ↔ w.fds fd = some ⟨d, .client⟩
  bufs : ∀ p, ∀ b ∈ w.pipes d p, w'.heap.bufs.get b = w.heap.bufs.get b

section frames

variable {w w' w'' : World} {d : ConnId}

theorem untouched_refl (w : World) (d : ConnId) : Untouched w w d :=
  ⟨rfl, rfl, fun _ _ => Iff.rfl, fun _ _ _ => rfl⟩

theorem Untouched.trans (h : Untouched w w' d) (h' : Untouched w' w'' d) : Untouched w w'' d := by
  have hpipes : ∀ p, w'.pipes d p = w.pipes d p := fun p => by simp only [World.pipes, h.conn]
  constructor
  · exact h'.conn.trans h.conn
  · exact h'.loop.trans h.loop
  · exact fun fd side => (h'.fds fd side).trans (h.fds fd side)
  · intro p b hb
    rw [h'.bufs p b (by rw [hpipes]; exact hb)]
    exact h.bufs p b hb

theorem Untouched.kept (h : Untouched w w' d) : Kept w w' d := by
  constructor
  · intro r hr
    exact ⟨r, h.conn.trans hr, rfl, rfl, rfl, rfl⟩
  · exact fun hr => h.conn.trans hr
  · rw [h.loop]
  · rw [h.loop]
  · exact fun fd => h.fds fd .client
  · exact h.bufs

theorem Kept.pipes (h : Kept w w' d) (p : Pipe) : w'.pipes d p = w.pipes d p := by
  cases hr : w.conns.get d with
  | none => simp [World.pipes, hr, h.gone hr]
  | some r =>
    obtain ⟨r',hr',-,-,h1,h2⟩ := h.conn r hr
    rw [pipes_of hr, pipes_of hr']
    cases p with
    | pipe1 => exact h1
    | pipe2 => exact h2

theorem Kept.trans (h : Kept w w' d) (h' : Kept w' w'' d) : Kept w w'' d := by
  constructor
  · intro r hr
    obtain ⟨r',hr',hfd,htimer,h1,h2⟩ := h.conn r hr
    obtain ⟨r'',hr'',hfd',htimer',h1',h2'⟩ := h'.conn r' hr'
    exact ⟨r'', hr'', hfd'.trans hfd, htimer'.trans htimer, h1'.trans h1, h2'.trans h2⟩
  · exact fun hr => h'.gone (h.gone hr)
  · exact h'.eRecv.trans h.eRecv
  · exact h'.eTimer.trans h.eTimer
  · exact fun fd => (h'.fds fd).trans (h.fds fd)
  · intro p b hb
    rw [h'.bufs p b (by rw [h.pipes]; exact hb)]
    exact h.bufs p b hb

theorem untouched_same (hconn : w'.conns.get d = w.conns.get d) (hloop : w'.loop d = w.loop d)
    (hfds : w'.fds = w.fds) (hbufs : w'.heap.bufs = w.heap.bufs) : Untouched w w' d := by
  refine ⟨hconn, hloop, fun fd side => by rw [hfds], fun p b _ => by rw [hbufs]⟩

theorem untouched_buf (hconn : w'.conns.get d = w.conns.get d) (hloop : w'.loop d = w.loop d)
    (hfds : w'.fds = w.fds) {b : BufId} (hb : ∀ p, b ∉ w.pipes d p)
    (hbufs : ∀ a, a ≠ b → w'.heap.bufs.get a = w.heap.bufs.get a) : Untouched w w' d := by
  refine ⟨hconn, hloop, fun fd side => by rw [hfds], fun p a ha => hbufs a ?_⟩
  rintro rfl
  exact hb p ha

theorem untouched_closed (hconn : w'.conns.get d = w.conns.get d) (hloop : w'.loop d = w.loop d)
    {fd : ℤ} (hfd : ∀ side, w.fds fd ≠ some ⟨d, side⟩)
    (hfds : ∀ g, w'.fds g = if g = fd then none else w.fds g)
    (hbufs : w'.heap.bufs = w.heap.bufs) : Untouched w w' d := by
  refine ⟨hconn, hloop, fun g side => ?_, fun p b _ => by rw [hbufs]⟩
  rw [hfds]
  by_cases hg : g = fd
  · simp [hg, hfd side]
  · rw [if_neg hg]

theorem untouched_opened (hconn : w'.conns.get d = w.conns.get d) (hloop : w'.loop d = w.loop d)
    {fd : ℤ} (hfd : w.fds fd = none) {e : ConnId} (hde : d ≠ e)
    (hfds : ∀ g, w'.fds g = if g = fd then some ⟨e, .upstream⟩ else w.fds g)
    (hbufs : w'.heap.bufs = w.heap.bufs) : Untouched w w' d := by
  refine ⟨hconn, hloop, fun g side => ?_, fun p b _ => by rw [hbufs]⟩
  rw [hfds]
  by_cases hg : g = fd
  · subst hg
    rw [if_pos rfl, hfd]
    constructor
    · intro h
      exact absurd (congrArg Sock.owner (Option.some.inj h)).symm hde
    · rintro ⟨⟩
  · rw [if_neg hg]

theorem scheduled_kept {r r' : XtpConn} (hr : w.conns.get d = some r)
    (hput : w'.conns = w.conns.set d r') (hfd : r'.fd = r.fd)
    (htimer : r'.timerRepeat = r.timerRepeat)
    (hpipes : r'.pipe1 = r.pipe1 ∧ r'.pipe2 = r.pipe2)
    (hloop : w'.loop d .eRecv = w.loop d .eRecv ∧ w'.loop d .eTimer = w.loop d .eTimer)
    (hfds : ∀ fd, w'.fds fd = some ⟨d, .client⟩ ↔ w.fds fd = some ⟨d, .client⟩)
    (hbufs : w'.heap.bufs = w.heap.bufs) : Kept w w' d := by
  refine ⟨fun r'' hr'' => ?_, fun hnone => ?_, hloop.1, hloop.2, hfds, fun p b _ => by rw [hbufs]⟩
  · cases hr.symm.trans hr''
    exact ⟨r', by simp [hput], hfd, htimer, hpipes⟩
  · cases hr.symm.trans hnone

end frames

variable {c : ConnId} {s t : Stage}

/-- A record other than `c` that an action touches is the head of the queue of
a scheduler that is about to run. -/
theorem act_apart (h : Act (some c) s t) (hI : Inv s) {d : ConnId} (hd : d ≠ c) :
    Untouched s.w t.w d ∨
    s.due = true ∧ s.w.ln.cqWaiting.head? = some d ∧ Kept s.w t.w d := by
  have hD := hI.descriptors
  have hother : ∀ {r p b}, s.w.conns.get c = some r → b ∈ r.pipe p → ∀ q, b ∉ s.w.pipes d q := by
    intro r p b hr hb q hmem
    exact hd (hI.buffers.disjoint d q c p b hmem (mem_pipes hr hb)).1
  cases h with
  | answers | mallocs | countMax | pass | beginFill | leak | doom | settle =>
    exact Or.inl (untouched_same rfl rfl rfl rfl)
  | addBlock =>
    refine Or.inl ⟨rfl, rfl, fun _ _ => Iff.rfl, fun p b hb => if_neg ?_⟩
    intro hn
    obtain ⟨r,hr,-⟩ := (hI.buffers.shape d p).each b hb
    have hlt := hI.buffers.wellFormed.lt hr
    simp only at hlt
    omega
  | link hr hb hrb hp =>
    refine Or.inl (untouched_buf ?_ rfl rfl (fun p hmem => ?_) fun a ha => if_neg ha)
    · simp [hd]
    · exact hI.buffers.apart d p _ hmem (by simp [hb])
  | fill chunks hr hb =>
    exact Or.inl (untouched_buf rfl rfl rfl (hother hr (List.mem_of_mem_getLast? hb)) fun a ha =>
      if_neg ha)
  | lose chunks hr hb =>
    exact Or.inl (untouched_buf rfl rfl rfl (hother hr (List.mem_of_mem_getLast? hb)) fun a ha =>
      if_neg ha)
  | drain ks hr hp hb =>
    exact Or.inl (untouched_buf rfl rfl rfl (hother hr (List.mem_of_mem_head? hb)) fun a ha =>
      if_neg ha)
  | answered | restClient | restUpstream | stopTimer =>
    exact Or.inl (untouched_same rfl (by funext k; simp [hd]) rfl rfl)
  | requested =>
    left
    dsimp only
    split
    · exact untouched_same rfl (by funext k; simp [hd]) rfl rfl
    · exact untouched_refl _ _
  | stopUpcTimer => exact Or.inl (untouched_same rfl (by funext k; simp [hd]) rfl rfl)
  | unlink => exact Or.inl (untouched_same (by simp [hd]) rfl rfl rfl)
  | enqueue | timeOut => exact Or.inl (untouched_same (by simp [hd]) rfl rfl rfl)
  | connect =>
    exact Or.inl (untouched_same (by simp [hd]) (by funext k; simp [hd]) (by simp) (by simp))
  | free => exact Or.inl (untouched_same (by simp [hd]) rfl rfl rfl)
  | @noSocket _ w b fs is e r i leaked hs hi hr hfd =>
    by_cases hde : d = e
    · subst hde
      refine Or.inr ⟨rfl, hs.1, ?_⟩
      refine scheduled_kept hr (abandoned_conns ..) rfl rfl ⟨rfl, rfl⟩ (by simp) (fun g => ?_)
        (by simp)
      rw [abandoned_fds]
      by_cases hg : leaked = some g
      · simp [hg, (hfd g hg).2]
      · rw [if_neg hg]
    · left
      cases leaked with
      | none => exact untouched_same (by simp [hde]) (by simp) (by funext g; simp) (by simp)
      | some fd =>
        exact untouched_opened (by simp [hde]) (by simp) (hfd fd rfl).2 hde
          (fun g => by simp [eq_comm]) (by simp)
  | @promote _ w b fs is e r i fd hs hi hr hfd =>
    by_cases hde : d = e
    · subst hde
      refine Or.inr ⟨rfl, hs.1, ?_⟩
      refine scheduled_kept hr (promoted_conns ..) rfl rfl ⟨rfl, rfl⟩ (by simp) (fun g => ?_)
        (by simp)
      by_cases hg : g = fd
      · simp [hg, hfd.2]
      · simp [hg]
    · exact Or.inl (untouched_opened (by simp [hde]) (by funext k; simp [hde]) hfd.2 hde
        (fun g => by simp) (by simp))
  | @refuse _ w b fs is e r i fd hs hi hr hfd =>
    have hfds : (closedUpstream (dialled w e i fd) e (dialledConn r i fd)).fds = w.fds := by
      funext g
      by_cases hg : g = fd
      · simp [dialledConn, hg, hfd.2]
      · simp [dialledConn, hg]
    by_cases hde : d = e
    · subst hde
      refine Or.inr ⟨rfl, hs.1, ?_⟩
      exact scheduled_kept hr (closedUpstream_conns ..) rfl rfl ⟨rfl, rfl⟩ (by simp)
        (fun g => by rw [hfds]) (by simp)
    · exact Or.inl (untouched_same (by simp [hde]) (by funext k; simp [hde]) hfds (by simp))
  | @closeUpstream w busy fs is _ r hr hup =>
    refine Or.inl (untouched_closed (by simp [hd]) (by funext k; simp [hd]) (fun side h => ?_)
      (closedUpstream_fds w c r) (by simp))
    rw [show w.fds r.upcFd = some ⟨c, .upstream⟩ from hD.upstream c r hr hup] at h
    cases h
    exact hd rfl
  | @closeClient w fs is _ r hr hs =>
    refine Or.inl (untouched_closed (by simp [hd]) (by funext k; simp [hd]) (fun side h => ?_)
      (closedClient_fds w c r) (by simp))
    rcases hD.client c r hr hs with hown | hneg
    · rw [show w.fds r.fd = some ⟨c, .client⟩ from hown] at h
      cases h
      exact hd rfl
    · have hnonneg := hD.nonneg _ _ h
      omega

/-- The milestones that are noted just before the scheduler is entered. -/
def enters : Milestone → Bool
  | .inserted _ => true
  | .released _ => true
  | .promoted _ => false
  | .closed _ => false

/-- The head of the waiting queue, which was `q` before, when the scheduler is
first entered by a callback that notes `new`. -/
def firstHead (q : List ConnId) (new : List Milestone) : Option ConnId :=
  match new.find? enters with
  | some (.inserted c) => (q ++ [c]).head?
  | some _ => q.head?
  | none => none

def isPromotion : Milestone → Bool
  | .promoted _ => true
  | _ => false

def promotions (new : List Milestone) : ℕ := new.countP isPromotion

theorem promotions_snoc (new : List Milestone) (m : Milestone) :
    promotions (new ++ [m]) = promotions new + if isPromotion m then 1 else 0 := by
  simp [promotions, List.countP_cons]

theorem promotions_other (new : List Milestone) {m : Milestone} (hm : isPromotion m = false) :
    promotions (new ++ [m]) = promotions new := by
  simp [promotions_snoc, hm]

theorem firstHead_later {q : List ConnId} {new : List Milestone} {d : ConnId}
    (h : firstHead q new = some d) (more : List Milestone) :
    firstHead q (new ++ more) = some d := by
  unfold firstHead at h ⊢
  rw [List.find?_append]
  cases hf : new.find? enters with
  | none =>
    rw [hf] at h
    cases h
  | some m =>
    rw [hf] at h
    exact h

/-- How far the callback of `c` has got that found the queue `q`. Before it
enters the scheduler it may only take `c` itself out of the queue, and once
the scheduler has returned it does not enter it again for another client. -/
inductive Progress (c : ConnId) (q : List ConnId) (s : Stage) (new : List Milestone) : Prop
  | before (hdue : s.due = false) (hnew : new.find? enters = none) (hnum : promotions new = 0)
      (hq : ∀ r, s.w.conns.get c = some r → r.status ≠ .close → s.w.ln.cqWaiting = q)
  | running (hdue : s.due = true) (hnew : (new.find? enters).isSome) (hnum : promotions new = 0)
      (hhead : s.w.ln.cqWaiting.head? = firstHead q new)
      (hc : ∀ r, s.w.conns.get c = some r → r.status ≠ .none ∧ r.isOpen = false)
      (hq : s.w.ln.cqWaiting.head? = some c → s.w.ln.cqWaiting = [c])
  | after (hnew : (new.find? enters).isSome) (hnum : promotions new ≤ 1)
      (hdue : s.due = true → s.w.ln.cqWaiting = [])
      (hc : ∀ r, s.w.conns.get c = some r →
        r.status ≠ .none ∧ (r.isOpen → s.w.ln.cqWaiting = []))

variable {q : List ConnId} {new : List Milestone}

theorem same_progress (hP : Progress c q s new) (hdue : t.due = s.due)
    (hcq : t.w.ln.cqWaiting = s.w.ln.cqWaiting)
    (hc : ∀ r', t.w.conns.get c = some r' → ∃ r, s.w.conns.get c = some r ∧
      (r'.status ≠ .close → r.status ≠ .close) ∧ (r'.status = .none → r.status = .none) ∧
      (r'.isOpen → r.isOpen)) : Progress c q t new := by
  cases hP with
  | before hd hnew hnum hq =>
    refine .before (hdue.trans hd) hnew hnum fun r' hr' hs => ?_
    obtain ⟨r,hr,hclose,-,-⟩ := hc r' hr'
    rw [hcq]
    exact hq r hr (hclose hs)
  | running hd hnew hnum hhead hr hq =>
    refine .running (hdue.trans hd) hnew hnum (hcq ▸ hhead) (fun r' hr' => ?_) (hcq ▸ hq)
    obtain ⟨r,hget,-,hnone,ho⟩ := hc r' hr'
    obtain ⟨h1,h2⟩ := hr r hget
    exact ⟨fun h => h1 (hnone h), Bool.eq_false_iff.mpr fun h => by simp [ho h] at h2⟩
  | after hnew hnum hd hr =>
    refine .after hnew hnum (fun h => hcq ▸ hd (hdue ▸ h)) fun r' hr' => ?_
    obtain ⟨r,hget,-,hnone,ho⟩ := hc r' hr'
    obtain ⟨h1,h2⟩ := hr r hget
    exact ⟨fun h => h1 (hnone h), fun h => hcq ▸ h2 (ho h)⟩

theorem same_progress_put (hP : Progress c q s new) {r r' : XtpConn}
    (hr : s.w.conns.get c = some r) (hput : t.w.conns = s.w.conns.set c r')
    (hs : r'.status ≠ .close → r.status ≠ .close) (hnone : r'.status = .none → r.status = .none)
    (ho : r'.isOpen → r.isOpen) (hdue : t.due = s.due)
    (hcq : t.w.ln.cqWaiting = s.w.ln.cqWaiting) : Progress c q t new := by
  apply same_progress hP hdue hcq
  intro r'' hr''
  rw [hput, Store.set_get, if_pos rfl] at hr''
  cases hr''
  exact ⟨r, hr, hs, hnone, ho⟩

theorem act_progress (h : Act (some c) s t) (hI : Inv s) (hP : Progress c q s new) :
    ∃ more, t.w.log = s.w.log ++ more ∧ Progress c q t (new ++ more) := by
  have same : ∀ r', s.w.conns.get c = some r' → ∃ r, s.w.conns.get c = some r ∧
      (r'.status ≠ .close → r.status ≠ .close) ∧ (r'.status = .none → r.status = .none) ∧
      (r'.isOpen → r.isOpen) := fun r hr => ⟨r, hr, id, id, id⟩
  have silent : Progress c q t new → t.w.log = s.w.log →
      ∃ more, t.w.log = s.w.log ++ more ∧ Progress c q t (new ++ more) := fun h hlog =>
    ⟨[], by simp [hlog], by simpa using h⟩
  cases h with
  | answers | mallocs | countMax | addBlock | beginFill | fill | lose | answered | drain | leak
  | restClient | restUpstream | doom | settle | stopTimer | stopUpcTimer =>
    exact silent (same_progress hP rfl rfl same) rfl
  | requested =>
    apply silent
    · split <;> exact same_progress hP rfl rfl same
    · split <;> rfl
  | link hr => exact silent (same_progress_put hP hr rfl (by simp) (by simp) (by simp) rfl rfl) rfl
  | unlink hr =>
    exact silent (same_progress_put hP hr rfl (by simp) (by simp) (by simp) rfl rfl) rfl
  | timeOut hr hs =>
    exact silent (same_progress_put hP hr rfl (fun _ => hs) (by simp) id rfl rfl) rfl
  | connect timeout hr hup =>
    exact silent (same_progress_put hP hr rfl id id (by simp [XtpConn.isOpen, hup]) rfl rfl) rfl
  | free =>
    apply silent (same_progress hP rfl rfl _) rfl
    intro r' hr'
    simp at hr'
  | @enqueue w fs is _ r hr hs =>
    refine ⟨[.inserted c], by simp, ?_⟩
    cases hP with
    | before hd hnew hnum hq =>
      have hqueue : w.ln.cqWaiting = q := hq r hr (by simp [hs])
      have hfirst : firstHead q (new ++ [.inserted c]) = (q ++ [c]).head? := by
        simp [firstHead, hnew, enters]
      refine .running rfl (by simp [hnew, enters]) (by rw [promotions_other new rfl, hnum])
        ?_ ?_ ?_
      · rw [hfirst, enqueued_ln, hqueue]
      · intro r' hr'
        simp only [enqueued_conns, Store.set_get, if_true] at hr'
        cases hr'
        have hup := (hI.records.phase c r hr).ofNone hs
        exact ⟨by simp, by simp [XtpConn.isOpen, hup]⟩
      · simp only [enqueued_ln]
        intro hhead
        cases hl : w.ln.cqWaiting with
        | nil => rfl
        | cons d rest =>
          rw [hl] at hhead
          obtain rfl := Option.some.inj hhead
          have hmem := hI.queue.mem d (by simp [hl]) r hr
          simp [hs] at hmem
    | running hd => cases hd
    | after hnew hnum hd hc => exact absurd hs (hc r hr).1
  | @pass _ w b fs is hpass =>
    refine silent ?_ rfl
    cases hP with
    | before hd => cases hd
    | running hd hnew hnum hhead hc hq =>
      refine .after hnew (by omega) (by simp) fun r hr => ⟨(hc r hr).1, fun ho => ?_⟩
      rw [(hc r hr).2] at ho
      cases ho
    | after hnew hnum hd hc => exact .after hnew hnum (by simp) hc
  | @noSocket _ w b fs is e r i leaked hs hi hr =>
    refine silent ?_ (by simp)
    cases hP with
    | before hd => cases hd
    | running hd hnew hnum hhead hc hq =>
      refine .after hnew (by omega) (by simp) fun r' hr' => ?_
      rw [abandoned_conns, Store.set_some] at hr'
      have hcold : r'.status ≠ .none ∧ r'.isOpen = false := by
        rcases hr' with ⟨rfl,rfl⟩ | ⟨-,hr'⟩
        · exact hc r hr
        · exact hc r' hr'
      refine ⟨hcold.1, fun ho => ?_⟩
      rw [hcold.2] at ho
      cases ho
    | after hnew hnum hd hc => exact absurd (hd rfl) (List.ne_nil_of_mem (scheduled_mem hs))
  | @promote _ w b fs is e r i fd hs hi hr hfd =>
    refine ⟨[.promoted e], by simp, ?_⟩
    cases hP with
    | before hd => cases hd
    | running hd hnew hnum hhead hc hq =>
      refine .after (by simp [hnew]) (by rw [promotions_snoc, hnum]; rfl) (by simp)
        fun r' hr' => ?_
      rw [promoted_conns, Store.set_some] at hr'
      rcases hr' with ⟨rfl,rfl⟩ | ⟨-,hr'⟩
      · refine ⟨by simp, fun _ => ?_⟩
        have hone : w.ln.cqWaiting = [c] := hq hs.1
        simp [hone]
      · refine ⟨(hc r' hr').1, fun ho => ?_⟩
        rw [(hc r' hr').2] at ho
        cases ho
    | after hnew hnum hd hc => exact absurd (hd rfl) (List.ne_nil_of_mem (scheduled_mem hs))
  | @refuse _ w b fs is e r i fd hs hi hr hfd =>
    refine ⟨[.released e], by simp, ?_⟩
    cases hP with
    | before hd => cases hd
    | running hd hnew hnum hhead hc hq =>
      obtain ⟨m,hm⟩ := Option.isSome_iff_exists.mp hnew
      have hfirst : firstHead q (new ++ [.released e]) = firstHead q new := by
        simp [firstHead, hm]
      refine .running rfl (by simp [hnew]) (by rw [promotions_other new rfl, hnum]) ?_ ?_ ?_
      · simpa [hfirst] using hhead
      · intro r' hr'
        rw [closedUpstream_conns, Store.set_some] at hr'
        rcases hr' with ⟨rfl,rfl⟩ | ⟨-,hr'⟩
        · exact ⟨(hc r hr).1, by simp [XtpConn.isOpen]⟩
        · exact hc r' hr'
      · simpa using hq
    | after hnew hnum hd hc => exact absurd (hd rfl) (List.ne_nil_of_mem (scheduled_mem hs))
  | @closeUpstream w busy fs is _ r hr hup =>
    refine ⟨[.released c], by simp, ?_⟩
    have hphase := hI.records.phase c r hr
    have hnone : r.status ≠ .none := by
      intro hn
      simp [XtpConn.isOpen, hphase.ofNone hn] at hup
    have hrec : ∀ r', (closedUpstream w c r).conns.get c = some r' →
        r'.status ≠ .none ∧ r'.isOpen = false := by
      intro r' hr'
      simp only [closedUpstream_conns, Store.set_get, if_true] at hr'
      cases hr'
      exact ⟨hnone, by simp [XtpConn.isOpen]⟩
    cases hP with
    | before hd hnew hnum hq =>
      have hclose : r.status ≠ .close := by
        rcases hphase.ofOpen hup with h | h <;> simp [h]
      have hqueue : w.ln.cqWaiting = q := hq r hr hclose
      have hfirst : firstHead q (new ++ [.released c]) = q.head? := by
        simp [firstHead, hnew, enters]
      refine .running rfl (by simp [hnew, enters]) (by rw [promotions_other new rfl, hnum]) ?_
        hrec ?_
      · simp [hfirst, hqueue]
      · intro hhead
        have hmem : c ∈ w.ln.cqWaiting := List.mem_of_mem_head? (by simpa using hhead)
        exact absurd hmem (open_off_queue hI.queue hr hup)
    | running hd => cases hd
    | after hnew hnum hd hc =>
      have hempty : w.ln.cqWaiting = [] := (hc r hr).2 hup
      refine .after (by simp [hnew]) (by rw [promotions_other new rfl]; exact hnum)
        (fun _ => by simp [hempty]) fun r' hr' => ?_
      refine ⟨(hrec r' hr').1, fun _ => by simp [hempty]⟩
  | @closeClient w fs is _ r hr hs ho =>
    refine ⟨[.closed c], by simp, ?_⟩
    have hrec : ∀ r', (closedClient w c r).conns.get c = some r' →
        r'.status = .close ∧ r'.isOpen = false := by
      intro r' hr'
      simp only [closedClient_conns, Store.set_get, if_true] at hr'
      cases hr'
      exact ⟨rfl, ho⟩
    cases hP with
    | before hd hnew hnum hq =>
      refine .before rfl (by simp [hnew, enters]) (by rw [promotions_other new rfl]; exact hnum)
        fun r' hr' hne => ?_
      exact absurd (hrec r' hr').1 hne
    | running hd => cases hd
    | after hnew hnum hd hc =>
      refine .after (by simp [hnew]) (by rw [promotions_other new rfl]; exact hnum) (by simp)
        fun r' hr' => ?_
      obtain ⟨h1,h2⟩ := hrec r' hr'
      refine ⟨by simp [h1], fun h => ?_⟩
      rw [h2] at h
      cases h

def Apart (c : ConnId) (w : World) (s : Stage) : Prop :=
  ∃ new, s.w.log = w.log ++ new ∧ Progress c w.ln.cqWaiting s new ∧
    ∀ d, d ≠ c → Kept w s.w d ∧ (firstHead w.ln.cqWaiting new ≠ some d → Untouched w s.w d)

theorem act_isolated {w : World} (h : Act (some c) s t) (hI : Inv s) (hA : Apart c w s) :
    Apart c w t := by
  obtain ⟨new,hlog,hP,hothers⟩ := hA
  obtain ⟨more,hmore,hP'⟩ := act_progress h hI hP
  refine ⟨new ++ more, by rw [hmore, hlog, List.append_assoc], hP', fun d hd => ?_⟩
  obtain ⟨hkept,hsame⟩ := hothers d hd
  rcases act_apart h hI hd with hstep | ⟨hdue,hhead,hstep⟩
  · refine ⟨hkept.trans hstep.kept, fun hne => (hsame fun hf => ?_).trans hstep⟩
    exact hne (firstHead_later hf more)
  · refine ⟨hkept.trans hstep, fun hne => ?_⟩
    cases hP with
    | before hd' => simp [hdue] at hd'
    | running _ _ _ hfirst => exact absurd (firstHead_later (hfirst.symm.trans hhead) more) hne
    | after _ _ hd' => simp [hd' hdue] at hhead

theorem path_isolated {w : World} {u : Stage} (h : Acts (some c) (rest w) u) (hI : Inv (rest w)) :
    Apart c w u := by
  induction h with
  | refl =>
    refine ⟨[], by simp [rest], .before rfl rfl rfl (fun _ _ _ => rfl), fun d _ => ?_⟩
    exact ⟨(untouched_refl w d).kept, fun _ => untouched_refl w d⟩
  | tail hp ha ih => exact act_isolated ha (path_inv hp hI) ih

def milestones (w w' : World) : List Milestone := w'.log.drop w.log.length

/-- A callback of `c` leaves every other record alone, except for the upstream
side of the client that is at the head of the queue when the scheduler is
first entered, and it promotes at most one client. -/
theorem isolated {w w' : World} {t : Turn} {c : ConnId} {k : Watcher} (h : Reachable proxy w)
    (he : t.event = .fire c k) (ha : Active w t.event) (hrun : run w t = .ok () w') :
    (∀ d, d ≠ c → Kept w w' d ∧
      (firstHead w.ln.cqWaiting (milestones w w') ≠ some d → Untouched w w' d)) ∧
    (∀ d e, d ≠ c → e ≠ c → ¬ Untouched w w' d → ¬ Untouched w w' e → d = e) ∧
    promotions (milestones w w') ≤ 1 := by
  have hI := reaches_inv h
  obtain ⟨u,hpath,rfl,-⟩ := returned_path hI ha hrun
  rw [he] at hpath
  obtain ⟨new,hlog,hP,hothers⟩ := path_isolated hpath (supply_inv t hI)
  have hnew : milestones w u.w = new := by
    have hsame : (supply w t).log = w.log := rfl
    rw [milestones, hlog, hsame, List.drop_left]
  rw [hnew]
  have hothers' : ∀ d, d ≠ c → Kept w u.w d ∧
      (firstHead w.ln.cqWaiting new ≠ some d → Untouched w u.w d) := by
    intro d hd
    obtain ⟨⟨h1,h2,h3,h4,h5,h6⟩,hsame⟩ := hothers d hd
    refine ⟨⟨h1, h2, h3, h4, h5, h6⟩, fun hne => ?_⟩
    obtain ⟨g1,g2,g3,g4⟩ := hsame hne
    exact ⟨g1, g2, g3, g4⟩
  refine ⟨hothers', fun d e hd he hnd hne => ?_, ?_⟩
  · have h1 := not_not.mp (mt (hothers' d hd).2 hnd)
    have h2 := not_not.mp (mt (hothers' e he).2 hne)
    exact Option.some.inj (h1.symm.trans h2)
  · cases hP with
    | before _ _ hnum => omega
    | running _ _ hnum => omega
    | after _ hnum => exact hnum

theorem isolated_threeClients :
    ∃ w w' : World, firstHead w.ln.cqWaiting (milestones w w') = some 1 ∧ Kept w w' 1 ∧
      Untouched w w' 2 ∧ promotions (milestones w w') = 1 := by
  have hplay : (play (fun _ _ => true) (listener (singlePeer 1) (initialPool true))
      [comes 5, comes 6, comes 7, asks 0 1 [.inProgress] [], asks 1 2 [] [true],
        asks 2 3 [] [true, true]]).any (fun w => w.loop 0 .upcERecv &&
        (play (fun _ _ => true) w [ends 0 [.inProgress] []]).any (fun w' =>
          decide (firstHead w.ln.cqWaiting (milestones w w') = some 1 ∧
            promotions (milestones w w') = 1))) = true := by
    decide +kernel
  obtain ⟨w,hr,hw⟩ := play_reaches _ (.start (singlePeer_start 1)) hplay
  obtain ⟨hactive,hw⟩ := Bool.and_eq_true_iff.mp hw
  obtain ⟨w',hstep,hw'⟩ := play_step hw
  obtain ⟨hfirst,hone⟩ := of_decide_eq_true hw'
  have hothers := (isolated (t := ends 0 [.inProgress] []) hr.reachable rfl
    hactive hstep.2.1).1
  have htwo := (hothers 2 (by decide)).2 (by rw [hfirst]; decide)
  exact ⟨w, w', hfirst, (hothers 1 (by decide)).1, htwo, hone⟩

end TcpFunnel.Isolation
