import TcpFunnel.Runs
import TcpFunnel.Library.Custody

/-!
# The accounting of descriptors

Every descriptor that is open belongs to a record that is not freed: it is the
socket of a client that is not closed, or of an upstream that is open. Two
ways lead out of this. A promotion that fails in `fcntl` leaves its socket
open, and an error of `accept` is taken for a client with descriptor `-1`.
-/

set_option autoImplicit false

namespace TcpFunnel.DescriptorAccounting
open TcpFunnel.BufferPool TcpFunnel.Connection TcpFunnel.EventLoop TcpFunnel.Reachability
open TcpFunnel.Custody TcpFunnel.Actions TcpFunnel.Invariants TcpFunnel.QueueInvariant
open TcpFunnel.StageInvariant TcpFunnel.StepSimulation TcpFunnel.Runs

def custody : FdEvent → Custody.Event ℤ
  | .opened fd => .taken fd
  | .closed fd => .returned fd

def handled (w : World) : List (Custody.Event ℤ) := w.fdLog.map custody

def Owns (r : XtpConn) : Side → ℤ → Prop
  | .client, fd => r.fd = fd ∧ r.status ≠ .close
  | .upstream, fd => r.upcFd = fd ∧ r.isOpen

structure Tracking (s : Stage) : Prop where
  proper : Proper (handled s.w)
  fds : ∀ fd, holds (handled s.w) fd = (s.w.fds fd).isSome
  owned : ∀ fd k, s.w.fds fd = some k → ∃ r, s.w.conns.get k.owner = some r ∧ Owns r k.side fd
  clients : ∀ c r, s.w.conns.get c = some r → r.status ≠ .close → r.fd ≠ -1

/-- A descriptor has been lost or made up in this turn. -/
def Astray (s : Stage) : Prop := .noClient ∈ s.incidents ∨ ∃ c, .leaked c ∈ s.failures

def Tracked (s : Stage) : Prop := ¬ Astray s → Tracking s

section logs

variable (w : World) (c : ConnId) (r : XtpConn)

@[simp] theorem linked_fdLog (p : Pipe) (b : BufId) (rest : List BufId) (rb : XtpBuf) :
    (linked w c p r b rest rb).fdLog = w.fdLog := by
  simp [linked]

@[simp] theorem unlinked_fdLog (p : Pipe) (b : BufId) : (unlinked w c p r b).fdLog = w.fdLog := by
  simp [unlinked]

@[simp] theorem enqueued_fdLog : (enqueued w c r).fdLog = w.fdLog := by
  simp [enqueued]

@[simp] theorem dialled_fdLog (i : ℕ) (fd : ℤ) :
    (dialled w c i fd).fdLog = w.fdLog ++ [.opened fd] := by
  simp [dialled, chosen]

@[simp] theorem promoted_fdLog (i : ℕ) (fd : ℤ) :
    (promoted w c r i fd).fdLog = w.fdLog ++ [.opened fd] := by
  simp [promoted]

@[simp] theorem abandoned_fdLog (i : ℕ) : (abandoned w c r i none).fdLog = w.fdLog := by
  simp [abandoned, chosen]

@[simp] theorem closedUpstream_fdLog :
    (closedUpstream w c r).fdLog = w.fdLog ++ [.closed r.upcFd] := by
  simp only [closedUpstream]
  split <;> simp

@[simp] theorem connected_fdLog (timeout : ℤ) : (connected w c r timeout).fdLog = w.fdLog := by
  simp [connected]

@[simp] theorem closedClient_fdLog : (closedClient w c r).fdLog = w.fdLog ++ [.closed r.fd] := by
  simp only [closedClient]
  split <;> simp

@[simp] theorem freed_fdLog : (freed w c).fdLog = w.fdLog := by
  simp [freed]

theorem accepted_fdLog {fd : ℤ} (hfd : fd ≠ -1) :
    (accepted w fd).fdLog = w.fdLog ++ [.opened fd] := by
  simp [accepted, hfd]

@[simp] theorem admitted_fdLog (fd : ℤ) : (admitted w fd).fdLog = w.fdLog := by
  simp [admitted]

end logs

variable {o : Option ConnId} {s t : Stage}

theorem same_tracking (hT : Tracking s) (hlog : t.w.fdLog = s.w.fdLog) (hfds : t.w.fds = s.w.fds)
    (howns : ∀ c r, s.w.conns.get c = some r → ∀ side fd, Owns r side fd →
      ∃ r', t.w.conns.get c = some r' ∧ Owns r' side fd)
    (hclients : ∀ c r', t.w.conns.get c = some r' → r'.status ≠ .close →
      ∃ r, s.w.conns.get c = some r ∧ r.status ≠ .close ∧ r'.fd = r.fd) : Tracking t := by
  have hhandled : handled t.w = handled s.w := by rw [handled, hlog, handled]
  constructor
  · rw [hhandled]
    exact hT.proper
  · rw [hhandled, hfds]
    exact hT.fds
  · intro fd k hk
    rw [hfds] at hk
    obtain ⟨r,hr,ho⟩ := hT.owned fd k hk
    exact howns k.owner r hr k.side fd ho
  · intro c r' hr' hs
    obtain ⟨r,hr,hs,hfd⟩ := hclients c r' hr' hs
    rw [hfd]
    exact hT.clients c r hr hs

def SameUse (r r' : XtpConn) : Prop :=
  r'.fd = r.fd ∧ (r'.status ≠ .close ↔ r.status ≠ .close) ∧ r'.upcFd = r.upcFd ∧
    r'.isOpen = r.isOpen

theorem SameUse.owns {r r' : XtpConn} (h : SameUse r r') {side : Side} {fd : ℤ} :
    Owns r' side fd ↔ Owns r side fd := by
  obtain ⟨h1,h2,h3,h4⟩ := h
  cases side with
  | client => simp only [Owns, h1, h2]
  | upstream => simp only [Owns, h3, h4]

section puts

variable {w w' : World} {c d : ConnId} {r r' rd : XtpConn} {side : Side} {g : ℤ}

theorem owns_put (hr : w.conns.get c = some r) (hput : w'.conns = w.conns.set c r')
    (hc : Owns r side g → Owns r' side g) (hd : w.conns.get d = some rd) (ho : Owns rd side g) :
    ∃ r'', w'.conns.get d = some r'' ∧ Owns r'' side g := by
  by_cases hdc : d = c
  · subst hdc
    cases hr.symm.trans hd
    exact ⟨r', by simp [hput], hc ho⟩
  · exact ⟨rd, by simpa [hput, hdc] using hd, ho⟩

theorem clients_put (hr : w.conns.get c = some r) (hput : w'.conns = w.conns.set c r')
    (hfd : r'.fd = r.fd) (hc : r'.status ≠ .close → r.status ≠ .close)
    (hd : w'.conns.get d = some rd) (hs : rd.status ≠ .close) :
    ∃ r'', w.conns.get d = some r'' ∧ r''.status ≠ .close ∧ rd.fd = r''.fd := by
  rw [hput, Store.set_some] at hd
  rcases hd with ⟨rfl,rfl⟩ | ⟨-,hd⟩
  · exact ⟨r, hr, hc hs, hfd⟩
  · exact ⟨rd, hd, hs, rfl⟩

end puts

theorem tracking_put (hT : Tracking s) {c : ConnId} {r r' : XtpConn}
    (hr : s.w.conns.get c = some r) (hput : t.w.conns = s.w.conns.set c r') (huse : SameUse r r')
    (hlog : t.w.fdLog = s.w.fdLog) (hfds : t.w.fds = s.w.fds) : Tracking t := by
  apply same_tracking hT hlog hfds
  · exact fun d rd hd side fd ho => owns_put hr hput huse.owns.mpr hd ho
  · exact fun d rd hd hs => clients_put hr hput huse.1 huse.2.1.mp hd hs

theorem handled_snoc {w w' : World} {e : FdEvent} (h : w'.fdLog = w.fdLog ++ [e]) :
    handled w' = handled w ++ [custody e] := by
  rw [handled, h, List.map_append, handled]
  rfl

theorem opened_tracking (hT : Tracking s) (c : ConnId) (side : Side) {fd : ℤ}
    (hfree : s.w.fds fd = none) (hlog : t.w.fdLog = s.w.fdLog ++ [.opened fd])
    (hfds : ∀ g, t.w.fds g = if g = fd then some ⟨c, side⟩ else s.w.fds g)
    (hown : ∃ r', t.w.conns.get c = some r' ∧ Owns r' side fd)
    (hkeep : ∀ d r, s.w.conns.get d = some r → ∀ side g, Owns r side g →
      ∃ r', t.w.conns.get d = some r' ∧ Owns r' side g)
    (hclients : ∀ d r', t.w.conns.get d = some r' → r'.status ≠ .close → r'.fd ≠ -1) :
    Tracking t := by
  have hhandled := handled_snoc hlog
  have hnot : holds (handled s.w) fd = false := by rw [hT.fds, hfree]; rfl
  constructor
  · rw [hhandled]
    exact hT.proper.snoc hnot
  · intro g
    rw [hhandled, hfds]
    simp only [custody, holds_taken]
    by_cases hg : g = fd
    · simp [hg]
    · simp [hg, hT.fds]
  · intro g k hk
    rw [hfds] at hk
    by_cases hg : g = fd
    · subst hg
      rw [if_pos rfl] at hk
      cases hk
      exact hown
    · rw [if_neg hg] at hk
      obtain ⟨r,hr,ho⟩ := hT.owned g k hk
      exact hkeep k.owner r hr k.side g ho
  · exact hclients

theorem closed_tracking (hT : Tracking s) {c : ConnId} {side : Side} {fd : ℤ}
    (hopen : s.w.fds fd = some ⟨c, side⟩) (hlog : t.w.fdLog = s.w.fdLog ++ [.closed fd])
    (hfds : ∀ g, t.w.fds g = if g = fd then none else s.w.fds g)
    (hkeep : ∀ d r, s.w.conns.get d = some r → ∀ side g, g ≠ fd → Owns r side g →
      ∃ r', t.w.conns.get d = some r' ∧ Owns r' side g)
    (hclients : ∀ d r', t.w.conns.get d = some r' → r'.status ≠ .close →
      ∃ r, s.w.conns.get d = some r ∧ r.status ≠ .close ∧ r'.fd = r.fd) : Tracking t := by
  have hhandled := handled_snoc hlog
  have hheld : holds (handled s.w) fd = true := by rw [hT.fds, hopen]; rfl
  constructor
  · rw [hhandled]
    exact hT.proper.snoc hheld
  · intro g
    rw [hhandled, hfds]
    simp only [custody, holds_returned]
    by_cases hg : g = fd
    · simp [hg]
    · simp [hg, hT.fds]
  · intro g k hk
    rw [hfds] at hk
    by_cases hg : g = fd
    · rw [if_pos hg] at hk
      cases hk
    · rw [if_neg hg] at hk
      obtain ⟨r,hr,ho⟩ := hT.owned g k hk
      exact hkeep k.owner r hr k.side g hg ho
  · intro d r' hr' hs
    obtain ⟨r,hr,hs,hfd⟩ := hclients d r' hr' hs
    rw [hfd]
    exact hT.clients d r hr hs

theorem passing_tracking (hT : Tracking s) (fd : ℤ) (hfree : s.w.fds fd = none)
    (hlog : t.w.fdLog = s.w.fdLog ++ [.opened fd] ++ [.closed fd]) (hfds : t.w.fds = s.w.fds)
    (hkeep : ∀ d r, s.w.conns.get d = some r → ∀ side g, Owns r side g →
      ∃ r', t.w.conns.get d = some r' ∧ Owns r' side g)
    (hclients : ∀ d r', t.w.conns.get d = some r' → r'.status ≠ .close →
      ∃ r, s.w.conns.get d = some r ∧ r.status ≠ .close ∧ r'.fd = r.fd) : Tracking t := by
  have hhandled : handled t.w = handled s.w ++ [.taken fd] ++ [.returned fd] := by
    simp [handled, hlog, custody]
  have hnot : holds (handled s.w) fd = false := by rw [hT.fds, hfree]; rfl
  constructor
  · have htaken : Allowed (handled s.w) (.taken fd) := hnot
    rw [hhandled]
    exact (hT.proper.snoc htaken).snoc (by simp [Allowed])
  · intro g
    rw [hhandled, hfds, holds_returned, holds_taken]
    by_cases hg : g = fd
    · simp [hg, hfree]
    · rw [if_neg hg, if_neg hg, hT.fds]
  · intro g k hk
    rw [hfds] at hk
    obtain ⟨r,hr,ho⟩ := hT.owned g k hk
    exact hkeep k.owner r hr k.side g ho
  · intro d r' hr' hs
    obtain ⟨r,hr,hs,hfd⟩ := hclients d r' hr' hs
    rw [hfd]
    exact hT.clients d r hr hs

theorem act_astray (h : Act o s t) (hA : ¬ Astray t) : ¬ Astray s := by
  intro hs
  apply hA
  rcases hs with hi | ⟨c,hc⟩
  · exact Or.inl (act_incidents_subset h hi)
  · exact Or.inr ⟨c, act_failures_subset h hc⟩

theorem act_tracked (h : Act o s t) (hI : Inv s) (hT : Tracked s) : Tracked t := by
  intro hA
  have hT := hT (act_astray h hA)
  have hD := hI.descriptors
  have same : ∀ c r, s.w.conns.get c = some r → ∀ side fd, Owns r side fd →
      ∃ r', s.w.conns.get c = some r' ∧ Owns r' side fd := fun c r hr _ _ ho => ⟨r, hr, ho⟩
  have sameClients : ∀ c r', s.w.conns.get c = some r' → r'.status ≠ .close →
      ∃ r, s.w.conns.get c = some r ∧ r.status ≠ .close ∧ r'.fd = r.fd :=
    fun c r hr hs => ⟨r, hr, hs, rfl⟩
  cases h with
  | answers | mallocs | countMax | addBlock | stopUpcTimer | pass | beginFill | fill | lose
  | answered | drain | leak | restClient | restUpstream | doom | stopTimer | settle =>
    exact same_tracking hT rfl rfl same sameClients
  | requested => split <;> exact same_tracking hT rfl rfl same sameClients
  | link hr => exact tracking_put hT hr rfl (by simp [SameUse]) (by simp) rfl
  | unlink hr => exact tracking_put hT hr rfl (by simp [SameUse]) (by simp) rfl
  | enqueue hr hs => exact tracking_put hT hr rfl ⟨rfl, by simp [hs], rfl, rfl⟩ (by simp) rfl
  | timeOut hr hs => exact tracking_put hT hr rfl ⟨rfl, by simp [hs], rfl, rfl⟩ rfl rfl
  | connect timeout hr hup =>
    exact tracking_put hT hr (connected_conns ..) ⟨rfl, Iff.rfl, rfl, by simp [XtpConn.isOpen, hup]⟩
      (by simp) (by simp)
  | @noSocket _ w b fs is c r i leaked hs hi hr hfd =>
    cases leaked with
    | none =>
      exact tracking_put hT hr (abandoned_conns ..) ⟨rfl, Iff.rfl, rfl, rfl⟩ (by simp)
        (by funext g; simp)
    | some fd => exact absurd (Or.inr ⟨c, List.mem_append_right _ (List.mem_singleton_self _)⟩) hA
  | @promote _ w b fs is c r i fd hs hi hr hfd =>
    obtain ⟨hw,ho⟩ := scheduled_waiting hI.queue rfl hs hr
    have hput := promoted_conns w c r i fd
    refine opened_tracking hT c .upstream hfd.2 (promoted_fdLog ..)
      (fun g => by simp) ⟨_, by rw [hput, Store.set_get, if_pos rfl], rfl, rfl⟩
      (fun d rd hd side g hown => owns_put hr hput (fun h => ?_) hd hown) fun d rd hd hs => ?_
    · cases side with
      | client => exact ⟨h.1, by simp⟩
      | upstream =>
        have hopen := h.2
        rw [ho] at hopen
        cases hopen
    · obtain ⟨r'',hr'',hs'',hfd''⟩ := clients_put hr hput rfl (fun _ => by simp [hw]) hd hs
      rw [hfd'']
      exact hT.clients d r'' hr'' hs''
  | @refuse _ w b fs is c r i fd hs hi hr hfd =>
    obtain ⟨hw,ho⟩ := scheduled_waiting hI.queue rfl hs hr
    have hput := closedUpstream_conns (dialled w c i fd) c (dialledConn r i fd)
    rw [(dialled_frame ..).2.2.1] at hput
    refine passing_tracking hT fd hfd.2 (by simp [dialledConn]) ?_
      (fun d rd hd side g hown => owns_put hr hput (fun h => ?_) hd hown)
      fun d rd hd hs => clients_put hr hput rfl id hd hs
    · funext g
      by_cases hg : g = fd
      · simp [dialledConn, hg, hfd.2]
      · simp [dialledConn, hg]
    · cases side with
      | client => exact h
      | upstream =>
        have hopen := h.2
        rw [ho] at hopen
        cases hopen
  | @closeUpstream w busy fs is c r hr hup hbusy =>
    have hput := closedUpstream_conns w c r
    refine closed_tracking hT (hD.upstream c r hr hup) (closedUpstream_fdLog ..)
      (closedUpstream_fds w c r)
      (fun d rd hd side g hg hown => owns_put hr hput (fun h => ?_) hd hown)
      fun d rd hd hs => clients_put hr hput rfl id hd hs
    cases side with
    | client => exact h
    | upstream => exact absurd h.1.symm hg
  | @closeClient w fs is c r hr hs ho =>
    have hput := closedClient_conns w c r
    have hopen := (hD.client c r hr hs).resolve_right (hT.clients c r hr hs)
    refine closed_tracking hT hopen (closedClient_fdLog ..) (closedClient_fds w c r)
      (fun d rd hd side g hg hown => owns_put hr hput (fun h => ?_) hd hown)
      fun d rd hd hs' => clients_put hr hput rfl (fun _ => hs) hd hs'
    cases side with
    | client => exact absurd h.1.symm hg
    | upstream => exact h
  | @free w fs is c r hr hs hup =>
    apply same_tracking hT (by simp) (by simp)
    · intro d rd hd side fd hown
      have hdc : d ≠ c := by
        rintro rfl
        cases hr.symm.trans hd
        cases side with
        | client => exact hown.2 hs
        | upstream =>
          have hopen := hown.2
          rw [hup] at hopen
          cases hopen
      exact ⟨rd, by simpa [hdc] using hd, hown⟩
    · exact fun d rd hd hs => ⟨rd, ((Store.free_some ..).mp hd).2, hs, rfl⟩
  | @welcome w fs is fd hfd hmax =>
    have hne : fd ≠ -1 := by
      rintro rfl
      exact hA (Or.inl (by simp))
    have hfree := hfd.resolve_right hne
    have hnone : w.conns.get w.conns.next = none := hI.records.wellFormed _ (Nat.le_refl _)
    refine opened_tracking hT w.conns.next .client hfree.2
      (by simp [accepted_fdLog w hne]) (fun g => by simp [hne])
      ⟨Access.newConn fd w.ln.timeout, by simp, rfl, by simp [Access.newConn]⟩ ?_ ?_
    · intro d rd hd side g hown
      have hdn : d ≠ w.conns.next := by
        rintro rfl
        cases hnone.symm.trans hd
      exact ⟨rd, by simpa [hdn] using hd, hown⟩
    · intro d rd hd hs
      by_cases hdn : d = w.conns.next
      · obtain rfl : Access.newConn fd w.ln.timeout = rd := by simpa [hdn] using hd
        exact hne
      · exact hT.clients d rd (by simpa [hdn] using hd) hs
  | @turnAway w fs is fd hfd =>
    have hne : fd ≠ -1 := by
      rintro rfl
      exact hA (Or.inl (by simp))
    have hfree := hfd.resolve_right hne
    refine passing_tracking hT fd hfree.2 (by simp [accepted_fdLog w hne]) ?_
      (by simpa using same) (by simpa using sameClients)
    funext g
    by_cases hg : g = fd
    · simp [hg, hfree.2]
    · simp [hg]

theorem start_tracking {w : World} (h : Start w) : Tracking (rest w) := by
  obtain ⟨srvcf,mallocs,heap,-,-,-,rfl⟩ := h
  constructor
  · exact proper_nil
  · exact fun _ => rfl
  · rintro _ _ ⟨⟩
  · rintro _ _ ⟨⟩

/-- The kernel lets no client get lost in `accept`, and no new upstream socket
fails in `fcntl`. -/
def Sound (_ : World) (t : Turn) : Prop :=
  if t.event = .accept then .error ∉ t.sys.accepts else false ∉ t.sys.fcntls

instance (w : World) (t : Turn) : Decidable (Sound w t) := by
  unfold Sound
  infer_instance

theorem sound_astray {w : World} {t : Turn} {u : Stage} (h : Sound w t) (hu : Turned w t u) :
    ¬ Astray u := by
  rintro (hi | ⟨c,hc⟩)
  · obtain ⟨he,herr⟩ := hu.incidents _ hi
    rw [Sound, if_pos he] at h
    exact h herr
  · obtain ⟨he,hfalse⟩ := hu.failures _ hc
    rw [Sound, if_neg he] at h
    exact h hfalse

/-- `close` is only called with an open descriptor. Every descriptor obtained
is closed once, or still in use by the record it was obtained for. -/
structure Balanced (w : World) : Prop where
  closes : ∀ before fd after, handled w = before ++ .returned fd :: after →
    holds before fd = true
  once : ∀ before fd after, handled w = before ++ .taken fd :: after →
    returns fd after = 1 ∨ returns fd after = 0 ∧
      ∃ c r side, w.fds fd = some ⟨c, side⟩ ∧ w.conns.get c = some r ∧ Owns r side fd

theorem Tracking.accounts {w : World} (hT : Tracking (rest w)) : Balanced w := by
  constructor
  · exact fun before fd after hlog => hT.proper before _ after hlog
  · intro before fd after hlog
    have hproper : Proper (handled w) := hT.proper
    rw [hlog] at hproper
    refine hproper.once.imp_right fun ⟨hzero,hheld⟩ => ⟨hzero, ?_⟩
    rw [← hlog] at hheld
    have hsome := (hT.fds fd).symm.trans hheld
    obtain ⟨⟨c,side⟩,hk⟩ := Option.isSome_iff_exists.mp hsome
    obtain ⟨r,hr,hown⟩ := hT.owned fd _ hk
    exact ⟨c, r, side, hk, hr, hown⟩

/-- As long as neither happens, the descriptors balance. -/
theorem balanced {w : World} (h : Reaches proxy Sound w) : Balanced w := by
  have hT : Tracked (rest w) := by
    refine reaches_along Tracked (fun _ h _ => start_tracking h) (fun _ _ hT hA => ?_)
      (fun _ _ hI hT ha => act_tracked ha hI hT) (fun w t u ho _ _ hu hT _ => ?_) h
    · have hT := hT hA
      exact ⟨hT.1, hT.2, hT.3, hT.4⟩
    · have hT := hT (sound_astray ho hu)
      exact ⟨hT.1, hT.2, hT.3, hT.4⟩
  apply (hT _).accounts
  rintro (hi | ⟨c,hc⟩)
  · exact List.not_mem_nil hi
  · exact List.not_mem_nil hc

theorem balanced_oneServed :
    ∃ w, w.fdLog = [.opened 5, .opened 20, .closed 20, .closed 5] ∧ Balanced w := by
  have hplay : (play (fun w t => Sound w t) (listener (singlePeer 1) (initialPool true))
      [comes 5, asks 0 1 [.inProgress] [], ends 0 [] [true],
        { event := .fire 0 .eRecv, sys := { recvs := [.got []] } }]).any
      (fun w => decide (w.fdLog = [.opened 5, .opened 20, .closed 20, .closed 5])) = true := by
    decide +kernel
  obtain ⟨w,hr,hw⟩ := play_reaches _ (.start (singlePeer_start 1)) hplay
  exact ⟨w, of_decide_eq_true hw, balanced (hr.mono fun _ _ => of_decide_eq_true)⟩

/-- `fcntl` fails for the upstream socket `20`, which stays open when the
record of its client has been freed. -/
theorem socket_leaks : ¬ ∀ w, Reachable proxy w → Balanced w := by
  have hplay : (play (fun _ _ => true) (listener (singlePeer 1) (initialPool true))
      [comes 5, { event := .fire 0 .eRecv, sys := {
        recvs := [.got [1], .eagain, .eagain], sockets := [some 20], fcntls := [false] } },
        { event := .fire 0 .eTimer }]).any
      (fun w => decide (handled w = [.taken 5, .taken 20, .returned 5] ∧
        w.fds 20 = some ⟨0, .upstream⟩ ∧ w.conns.get 0 = none)) = true := by
    decide +kernel
  obtain ⟨w,hr,hw⟩ := play_reaches _ (.start (singlePeer_start 1)) hplay
  obtain ⟨hlog,hfd,hnone⟩ := of_decide_eq_true hw
  intro h
  rcases (h w hr.reachable).once [.taken 5] 20 [.returned 5] hlog with hone | ⟨-,c,r,side,hk,hr,-⟩
  · exact absurd hone (by decide)
  · rw [hfd] at hk
    cases hk
    rw [hnone] at hr
    cases hr

end TcpFunnel.DescriptorAccounting
