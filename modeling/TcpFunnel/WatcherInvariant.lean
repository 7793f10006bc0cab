import TcpFunnel.PipeFlow
import TcpFunnel.Runs

/-!
# The watchers between two callbacks

The watchers of a record follow from its phases. What a pipe holds to be sent
keeps the watcher of its sender active: always for a response, and for a
request as long as `x_upstream_send_cb` is not cut off by `EAGAIN`.
-/

set_option autoImplicit false

namespace TcpFunnel.WatcherInvariant
open TcpFunnel.BufferPool TcpFunnel.Connection TcpFunnel.EventLoop TcpFunnel.Reachability
open TcpFunnel.Actions TcpFunnel.Invariants TcpFunnel.QueueInvariant TcpFunnel.RecordInvariant
open TcpFunnel.StageInvariant TcpFunnel.StepSimulation TcpFunnel.PipeFlow TcpFunnel.Runs

structure Consistent (peers : ℕ) (r : XtpConn) (on : Watcher → Bool) : Prop where
  status : r.status = .none ∨ r.status = .waiting ∨ r.status = .working ∨ r.status = .close
  upcStatus : r.upcStatus = .none ∨ r.upcStatus = .connect ∨ r.upcStatus = .working ∨
    r.upcStatus = .close
  ofOpen : r.upcStatus = .connect ∨ r.upcStatus = .working → r.status = .working
  ofNone : r.status = .none → r.upcStatus = .none
  ofWorking : r.status = .working → r.upcStatus ≠ .none
  upcf : r.upcStatus = .connect ∨ r.upcStatus = .working ∨ r.upcStatus = .close →
    ∃ i < peers, r.upcf = some i
  eRecv : on .eRecv = true ↔ r.status ≠ .close
  eSend : on .eSend = true → r.status ≠ .close
  upcERecv : on .upcERecv = true ↔ r.upcStatus = .connect ∨ r.upcStatus = .working
  upcEConnected : on .upcEConnected = true ↔ r.upcStatus = .connect
  upcESend : on .upcESend = true → r.upcStatus = .working
  upcETimer : on .upcETimer = true → r.upcStatus = .connect ∨ r.upcStatus = .working
  eTimer : on .eTimer = true

theorem phase_consistent {peers : ℕ} {c : ConnId} {r : XtpConn} {on : Watcher → Bool}
    (h : Phase .idle peers c r on) : Consistent peers r on := by
  have hstatus : r.status = .none ∨ r.status = .waiting ∨ r.status = .working ∨
      r.status = .close := by
    rcases h.status with h | h | h | h | ⟨-,hb⟩
    · exact Or.inl h
    · exact Or.inr (Or.inl h)
    · exact Or.inr (Or.inr (Or.inl h))
    · exact Or.inr (Or.inr (Or.inr h))
    · cases hb
  have hnot : r.status ≠ .timeout := by
    rcases hstatus with h | h | h | h <;> rw [h] <;> decide
  constructor
  · exact hstatus
  · exact h.upcStatus
  · exact fun ho => (h.ofOpen (isOpen_iff.mpr ho)).resolve_right hnot
  · exact h.ofNone
  · exact h.ofWorking
  · intro hup
    refine h.upcf ?_
    rcases hup with hup | hup | hup <;> rw [hup] <;> decide
  · rw [h.eRecv, decide_eq_true_iff]
  · exact h.eSend
  · rw [h.upcERecv, isOpen_iff]
  · rw [h.upcEConnected, decide_eq_true_iff]
  · exact h.upcESend
  · exact fun hon => isOpen_iff.mp (h.upcETimer hon)
  · exact h.eTimer.resolve_right (by simp)

/-- Between two callbacks every record is consistent, a freed one has no
active watcher, and so every callback that may run has a record to run on. -/
theorem watchers_consistent {w : World} (h : Reachable proxy w) :
    (∀ c r, w.conns.get c = some r → Consistent w.ln.srvcf.upstream.length r (w.loop c)) ∧
    (∀ c, w.conns.get c = none → ∀ k, w.loop c k = false) ∧
    (∀ c k, Active w (.fire c k) → ∃ r, w.conns.get c = some r) := by
  have hI := reaches_inv h
  exact ⟨fun c r hr => phase_consistent (hI.records.phase c r hr), hI.records.absent,
    fun c k ha => fired_record hI ha⟩

theorem watchers_consistent_oneWaits : ∃ w : World,
    w.loop 0 .upcEConnected = true ∧ (w.conns.get 1).isSome = true ∧
    (∀ c r, w.conns.get c = some r → Consistent w.ln.srvcf.upstream.length r (w.loop c)) ∧
    (∀ c, w.conns.get c = none → ∀ k, w.loop c k = false) ∧
    (∀ c k, Active w (.fire c k) → ∃ r, w.conns.get c = some r) := by
  have hplay : (play (fun _ _ => true) (listener (singlePeer 1) (initialPool true))
      oneWaits).any (fun w => w.loop 0 .upcEConnected && (w.conns.get 1).isSome) = true := by
    decide +kernel
  obtain ⟨w,hr,hw⟩ := play_reaches _ (.start (singlePeer_start 1)) hplay
  obtain ⟨hon,hsome⟩ := Bool.and_eq_true_iff.mp hw
  exact ⟨w, hon, hsome, watchers_consistent hr.reachable⟩

def sender : Pipe → Watcher
  | .pipe1 => .upcESend
  | .pipe2 => .eSend

/-- The pipe holds bytes that may leave it. A client whose upstream has closed
is also owed the closing of its connection. -/
def Owes (w : World) (c : ConnId) (p : Pipe) (r : XtpConn) : Prop :=
  Writable r p ∧ (unsent w c p ≠ [] ∨ (p = .pipe2 ∧ r.upcStatus = .close))

/-- The running callback is still filling the pipe or has met an error on the
way, or a request has been left to stall. -/
def Excused (s : Stage) (c : ConnId) (p : Pipe) : Prop :=
  (∃ full, s.busy = .filling c p full) ∨ s.busy = broken c p (source p) ∨
    (p = .pipe1 ∧ .stalled c ∈ s.incidents)

def Guarded (s : Stage) (c : ConnId) (p : Pipe) : Prop :=
  s.w.loop c (sender p) = true ∨ Excused s c p

def Armed (p : Pipe) (s : Stage) : Prop :=
  ∀ c r, s.w.conns.get c = some r → Owes s.w c p r → Guarded s c p

section actions

variable {o : Option ConnId} {s t : Stage} {c : ConnId} {p : Pipe}

theorem flow_held (h : Flow c p s t) (hne : unsent t.w c p ≠ []) :
    unsent s.w c p ≠ [] ∨ ∃ full, t.busy = .filling c p full := by
  cases h with
  | quiet hin hout hold => exact Or.inl (hold ▸ hne)
  | filled xs hbusy hnext => exact Or.inr hnext
  | lost xs hbusy hnext hin hout hold => exact Or.inl (hold ▸ hne)
  | leaked xs ys r hr hp hbusy hnext hin hout hrest hold => exact Or.inl (hold ▸ hne)
  | drained xs r hr hp hbusy hnext hin hout hold =>
    exact Or.inl (hold ▸ List.append_ne_nil_of_right_ne_nil _ hne)
  | dropped xs hbusy hnext hin hout hold =>
    exact Or.inl (hold ▸ List.append_ne_nil_of_right_ne_nil _ hne)

def Owed (p : Pipe) (s t : Stage) (c : ConnId) (r' : XtpConn) : Prop :=
  ∃ r, s.w.conns.get c = some r ∧ Writable r p ∧
    (p = .pipe2 → r'.upcStatus = .close → r.upcStatus = .close) ∧ (Guarded s c p → Guarded t c p)

theorem armed_of (hA : Armed p s) (hflow : ∀ c, Flow c p s t)
    (h : ∀ c r', t.w.conns.get c = some r' → Owes t.w c p r' →
      Guarded t c p ∨ Owed p s t c r') : Armed p t := by
  intro c r' hr' ho
  rcases h c r' hr' ho with hg | ⟨r,hr,hw,hclose,hg⟩
  · exact hg
  · rcases ho.2 with hne | ⟨hp,hup⟩
    · rcases flow_held (hflow c) hne with hne | hfill
      · exact hg (hA c r hr ⟨hw, Or.inl hne⟩)
      · exact Or.inr (Or.inl hfill)
    · exact hg (hA c r hr ⟨hw, Or.inr ⟨hp, hclose hp hup⟩⟩)

theorem armed_same (hA : Armed p s) (hflow : ∀ c, Flow c p s t)
    (hconns : t.w.conns = s.w.conns) (hg : ∀ c, Guarded s c p → Guarded t c p) : Armed p t := by
  refine armed_of hA hflow fun c r' hr' ho => Or.inr ⟨r', ?_, ho.1, fun _ => id, hg c⟩
  rw [← hconns]
  exact hr'

theorem armed_put (hA : Armed p s) (hflow : ∀ c, Flow c p s t) {d : ConnId} {r r' : XtpConn}
    (hr : s.w.conns.get d = some r) (hput : t.w.conns = s.w.conns.set d r')
    (hothers : ∀ c, c ≠ d → Guarded s c p → Guarded t c p)
    (h : Owes t.w d p r' → Guarded t d p ∨ (Writable r p ∧
      (p = .pipe2 → r'.upcStatus = .close → r.upcStatus = .close) ∧
      (Guarded s d p → Guarded t d p))) : Armed p t := by
  refine armed_of hA hflow fun c rc hrc ho => ?_
  rw [hput, Store.set_some] at hrc
  rcases hrc with ⟨rfl,rfl⟩ | ⟨hne,hrc⟩
  · exact (h ho).imp_right fun ⟨h1,h2,h3⟩ => ⟨r, hr, h1, h2, h3⟩
  · exact Or.inr ⟨rc, hrc, ho.1, fun _ => id, hothers c hne⟩

theorem guarded_mono (hg : Guarded s c p)
    (hloop : s.w.loop c (sender p) = true → t.w.loop c (sender p) = true)
    (hi : s.incidents ⊆ t.incidents)
    (hfill : ∀ full, s.busy = .filling c p full → Guarded t c p)
    (hbroken : s.busy = broken c p (source p) → Guarded t c p) : Guarded t c p := by
  rcases hg with hon | ⟨full,hb⟩ | hb | ⟨hp,hm⟩
  · exact Or.inl (hloop hon)
  · exact hfill full hb
  · exact hbroken hb
  · exact Or.inr (Or.inr (Or.inr ⟨hp, hi hm⟩))

theorem broken_ne (c : ConnId) (p : Pipe) :
    broken c p (source p) ≠ .idle ∧ ∀ d q full, broken c p (source p) ≠ .filling d q full := by
  cases p <;> simp [broken, source]

theorem guarded_same (hg : Guarded s c p)
    (hloop : s.w.loop c (sender p) = true → t.w.loop c (sender p) = true)
    (hi : s.incidents ⊆ t.incidents) (hb : t.busy = s.busy) : Guarded t c p :=
  guarded_mono hg hloop hi (fun full h => Or.inr (Or.inl ⟨full, hb.trans h⟩))
    (fun h => Or.inr (Or.inr (Or.inl (hb.trans h))))

theorem guarded_idle (hg : Guarded s c p)
    (hloop : s.w.loop c (sender p) = true → t.w.loop c (sender p) = true)
    (hi : s.incidents ⊆ t.incidents) (hb : s.busy = .idle) : Guarded t c p := by
  refine guarded_mono hg hloop hi (fun full h => ?_) (fun h => ?_)
  · rw [hb] at h
    cases h
  · exact absurd (h.symm.trans hb) (broken_ne c p).1

theorem guarded_filling (hg : Guarded s c p)
    (hloop : s.w.loop c (sender p) = true → t.w.loop c (sender p) = true)
    (hi : s.incidents ⊆ t.incidents) {d : ConnId} {q : Pipe} {full : Bool}
    (hb : s.busy = .filling d q full) (hown : c = d → p = q → Guarded t c p) : Guarded t c p := by
  refine guarded_mono hg hloop hi (fun full' h => ?_) (fun h => ?_)
  · rw [hb] at h
    cases h
    exact hown rfl rfl
  · exact absurd (h.symm.trans hb) ((broken_ne c p).2 d q full)

theorem started_on (w : World) (d : ConnId) (j : Watcher) (k : Watcher)
    (hon : w.loop c k = true) : (w.setWatcher d j true).loop c k = true := by
  rw [World.setWatcher_loop]
  split
  · rfl
  · exact hon

theorem closed_armed {w : World} {r : XtpConn}
    (ho : Owes (closedUpstream w c r) c p { r with upcStatus := .close }) :
    (closedUpstream w c r).loop c (sender p) = true := by
  cases p with
  | pipe1 => exact absurd ho.1 (by simp [Writable])
  | pipe2 =>
    have hs : r.status ≠ .close := ho.1
    simp [sender, hs]

theorem act_armed (h : Act o s t) (hI : Inv s) (p : Pipe) (hA : Armed p s) : Armed p t := by
  have hi := act_incidents_subset h
  have hflow := fun c => act_flow h hI c p
  cases h with
  | answers | mallocs | countMax | addBlock | pass | drain =>
    exact armed_same hA hflow rfl fun c hg => guarded_same hg id hi rfl
  | beginFill | leak | doom =>
    exact armed_same hA hflow rfl fun c hg => guarded_idle hg id hi rfl
  | stopTimer | stopUpcTimer =>
    refine armed_same hA hflow rfl fun c hg => guarded_same hg (fun hon => ?_) hi rfl
    rw [World.setWatcher_loop, if_neg]
    · exact hon
    · cases p <;> simp [sender]
  | fill =>
    refine armed_same hA hflow rfl fun c hg => guarded_filling hg id hi rfl ?_
    rintro rfl rfl
    exact Or.inr (Or.inl ⟨_, rfl⟩)
  | lose =>
    refine armed_same hA hflow rfl fun c hg => guarded_filling hg id hi rfl ?_
    rintro rfl rfl
    exact Or.inr (Or.inr (Or.inl rfl))
  | answered =>
    refine armed_same hA hflow rfl fun c hg => guarded_filling hg (started_on _ _ _ _) hi rfl ?_
    rintro rfl rfl
    exact Or.inl (by simp [sender])
  | @requested w fs is d r hr =>
    by_cases hup : r.upcStatus = .working
    · simp only [if_pos hup] at hflow ⊢
      refine armed_same hA hflow rfl fun c hg => guarded_filling hg (started_on _ _ _ _) hi rfl ?_
      rintro rfl rfl
      exact Or.inl (by simp [sender])
    · simp only [if_neg hup] at hflow ⊢
      refine armed_put hA hflow hr (Store.set_self hr).symm
        (fun c hne hg => guarded_filling hg id hi rfl fun h => absurd h hne) fun ho => ?_
      refine Or.inr ⟨ho.1, fun _ => id, fun hg => guarded_filling hg id hi rfl ?_⟩
      rintro - rfl
      exact absurd ho.1 hup
  | @restClient w fs is d r hr hempty hup =>
    refine armed_of hA hflow fun c r' hr' ho => Or.inr ⟨r', hr', ho.1, fun _ => id, fun hg => ?_⟩
    refine guarded_idle hg (fun hon => ?_) hi rfl
    rw [World.setWatcher_loop, if_neg]
    · exact hon
    · rintro ⟨rfl,hp⟩
      cases p with
      | pipe1 => cases hp
      | pipe2 =>
        cases hr.symm.trans hr'
        exact ho.2.elim (fun h => h hempty) (fun h => hup h.2)
  | @restUpstream w fs is d r hr =>
    refine armed_of hA hflow fun c r' hr' ho => ?_
    by_cases hown : c = d ∧ p = .pipe1
    · obtain ⟨rfl,rfl⟩ := hown
      have hne : unsent w c .pipe1 ≠ [] := ho.2.resolve_right (fun h => by cases h.1)
      refine Or.inl (Or.inr (Or.inr (Or.inr ⟨rfl, ?_⟩)))
      simp [hne]
    · refine Or.inr ⟨r', hr', ho.1, fun _ => id, fun hg => guarded_idle hg (fun hon => ?_) hi rfl⟩
      rw [World.setWatcher_loop, if_neg]
      · exact hon
      · rintro ⟨rfl,hp⟩
        cases p with
        | pipe1 => exact hown ⟨rfl, rfl⟩
        | pipe2 => cases hp
  | @link w fs is d q full r b rest rb hr hb hrb hp =>
    have hown : ∀ c, Guarded ⟨w, .filling d q full, false, fs, is⟩ c p →
        Guarded ⟨linked w d q r b rest rb, .filling d q false, false, fs, is⟩ c p := by
      intro c hg
      refine guarded_filling hg id hi rfl ?_
      rintro rfl rfl
      exact Or.inr (Or.inl ⟨_, rfl⟩)
    refine armed_put hA hflow hr rfl (fun c _ => hown c) fun ho => Or.inr ⟨?_, ?_, hown d⟩
    · simpa using ho.1
    · simp
  | unlink hr =>
    refine armed_put hA hflow hr rfl (fun c _ hg => guarded_same hg id hi rfl)
      fun ho => Or.inr ⟨?_, ?_, fun hg => guarded_same hg id hi rfl⟩
    · simpa using ho.1
    · simp
  | enqueue hr hs =>
    refine armed_put hA hflow hr rfl (fun c _ hg => guarded_same hg id hi rfl)
      fun ho => Or.inr ⟨?_, fun _ => id, fun hg => guarded_same hg id hi rfl⟩
    cases p with
    | pipe1 => exact ho.1
    | pipe2 => simp [Writable, hs]
  | timeOut hr hs =>
    refine armed_put hA hflow hr rfl ?_ fun ho => Or.inr ⟨?_, fun _ => id, ?_⟩
    · exact fun c _ hg => guarded_idle hg id hi rfl
    · cases p with
      | pipe1 => exact ho.1
      | pipe2 => exact hs
    · exact fun hg => guarded_idle hg id hi rfl
  | noSocket leaked hs hi hr =>
    refine armed_put hA hflow hr (abandoned_conns ..)
      (fun c _ hg => guarded_same hg (by simp) hi rfl)
      fun ho => Or.inr ⟨?_, fun _ => id, fun hg => guarded_same hg (by simp) hi rfl⟩
    cases p <;> exact ho.1
  | @promote _ w b fs is d r i fd hs hi hr =>
    have hwait := (scheduled_waiting hI.queue rfl hs hr).1
    have hkeep : ∀ c, Guarded ⟨w, b, true, fs, is⟩ c p →
        Guarded ⟨promoted w d r i fd, b, false, fs, is⟩ c p := fun c hg =>
      guarded_same hg (by cases p <;> simp [sender]) hi rfl
    refine armed_put hA hflow hr (promoted_conns ..) (fun c _ => hkeep c) fun ho =>
      Or.inr ⟨?_, fun _ h => by simp [dialledConn] at h, hkeep d⟩
    cases p with
    | pipe1 => simp [Owes, Writable, dialledConn] at ho
    | pipe2 => simp [Writable, hwait]
  | refuse hs hi hr =>
    refine armed_put hA hflow hr (closedUpstream_conns ..) (fun c hne hg =>
      guarded_same hg (by cases p <;> simp [sender, hne]) hi rfl)
      fun ho => Or.inl (Or.inl (closed_armed ho))
  | connect timeout hr hup =>
    refine armed_put hA hflow hr (connected_conns ..) (fun c hne hg =>
      guarded_idle hg (by simp [hne]) hi rfl) fun ho => ?_
    cases p with
    | pipe1 => exact Or.inl (Or.inl (by simp [sender]))
    | pipe2 => exact Or.inr ⟨ho.1, fun _ h => by simp at h, fun hg =>
        guarded_idle hg (by simp [sender]) hi rfl⟩
  | closeUpstream hr hup hbusy =>
    refine armed_put hA hflow hr (closedUpstream_conns ..) (fun c hne hg => ?_)
      fun ho => Or.inl (Or.inl (closed_armed ho))
    refine guarded_mono hg (by cases p <;> simp [sender, hne]) hi (fun full h => ?_)
      (fun h => ?_)
    · rcases hbusy with rfl | ⟨q,rfl⟩ | rfl <;> cases h
    · rcases hbusy with rfl | ⟨q,rfl⟩ | rfl
      · exact absurd h.symm (broken_ne c p).1
      · cases p <;> cases h
        exact absurd rfl hne
      · cases p <;> cases h
        exact absurd rfl hne
  | closeClient hr hs hup =>
    refine armed_put hA hflow hr (closedClient_conns ..) (fun c hne hg =>
      guarded_same hg (by cases p <;> simp [sender, hne]) hi rfl) fun ho => ?_
    cases p with
    | pipe1 => exact Or.inl (Or.inr (Or.inr (Or.inl rfl)))
    | pipe2 => exact absurd rfl ho.1
  | @settle w fs is d r hr hs hq htimer =>
    refine armed_put hA hflow hr (Store.set_self hr).symm (fun c hne hg => ?_) fun ho => ?_
    · refine guarded_mono hg id hi (fun full h => by cases h) (fun h => ?_)
      cases p <;> cases h
      exact absurd rfl hne
    · cases p with
      | pipe1 =>
        have hopen := (hI.records.phase d r hr).ofOpen (isOpen_iff.mpr (Or.inr ho.1))
        rw [hs] at hopen
        rcases hopen with h | h <;> cases h
      | pipe2 => exact absurd hs ho.1
  | @free w fs is d r hr hs hup =>
    refine armed_of hA hflow fun c r' hr' ho => ?_
    obtain ⟨hne,hr'⟩ := (Store.free_some ..).mp hr'
    refine Or.inr ⟨r', hr', ho.1, fun _ => id, fun hg => ?_⟩
    refine guarded_mono hg id hi (fun full h => by cases h) (fun h => ?_)
    cases p <;> cases h
    exact absurd rfl hne
  | @welcome w fs is fd =>
    refine armed_of hA hflow fun c r' hr' ho => ?_
    by_cases hc : c = w.conns.next
    · subst hc
      exfalso
      have hnone : w.conns.get w.conns.next = none := hI.records.wellFormed _ (Nat.le_refl _)
      obtain rfl : Access.newConn fd (accepted w fd).ln.timeout = r' := by simpa using hr'
      rcases ho.2 with hne | ⟨-,h⟩
      · rcases flow_held (hflow w.conns.next) hne with hne | ⟨full,h⟩
        · exact hne (by simp [unsent, World.pipes, hnone])
        · cases h
      · cases h
    · have hget : w.conns.get c = some r' := by simpa [hc] using hr'
      exact Or.inr ⟨r', hget, ho.1, fun _ => id, fun hg =>
        guarded_idle hg (by simp [hc]) hi rfl⟩
  | turnAway =>
    exact armed_same hA hflow (by simp) fun c hg => guarded_idle hg (by simp) hi rfl

end actions

theorem start_armed {w : World} (h : Start w) (p : Pipe) : Armed p (rest w) := by
  obtain ⟨srvcf,mallocs,heap,-,-,-,rfl⟩ := h
  rintro c r ⟨⟩

theorem rest_armed {u : Stage} {p : Pipe} (hA : Armed p u) (hb : u.busy = .idle ∨ u.busy = .over)
    (hi : ∀ c, p = .pipe1 → .stalled c ∉ u.incidents) : Armed p (rest u.w) := by
  intro c r hr ho
  rcases hA c r hr ho with hon | ⟨full,h⟩ | h | ⟨hp,hm⟩
  · exact Or.inl hon
  · rcases hb with hb | hb <;> rw [hb] at h <;> cases h
  · rcases hb with hb | hb
    · exact absurd (h.symm.trans hb) (broken_ne c p).1
    · rw [hb] at h
      cases p <;> cases h
  · exact absurd hm (hi c hp)

/-- A client that has a byte of its response to come, or whose upstream has
closed, has its sender active. -/
theorem response_armed {w : World} (h : Reachable proxy w) {c : ConnId} {r : XtpConn}
    (hr : w.conns.get c = some r) (hs : r.status ≠ .close)
    (hwork : HoldsUnsent w c .pipe2 ∨ r.upcStatus = .close) : w.loop c .eSend = true := by
  have hA : Armed .pipe2 (rest w) := by
    refine reaches_along (Armed .pipe2) (fun _ h => start_armed h _) (fun _ _ h => h)
      (fun _ _ hI hA ha => act_armed ha hI _ hA) (fun w t u _ _ _ hu hA => ?_) h
    exact rest_armed hA hu.busy fun _ hp => by cases hp
  have hB : Buffers (rest w) := (reaches_inv h).buffers
  have ho : Owes w c .pipe2 r :=
    ⟨hs, hwork.imp (holdsUnsent_iff hB c .pipe2).mp fun hup => ⟨rfl, hup⟩⟩
  rcases hA c r hr ho with hon | ⟨full,h⟩ | h | ⟨hp,-⟩
  · exact hon
  · cases h
  · cases h
  · cases hp

theorem response_armed_ended : ∃ w : World, ∃ r, w.conns.get 0 = some r ∧
    r.upcStatus = .close ∧ w.loop 0 .eSend = true := by
  have hplay : (play (fun _ _ => true) (listener (singlePeer 1) (initialPool true))
      (oneWaits ++ [ends 0 [.inProgress] [true, true]])).any (fun w =>
        (w.conns.get 0).any fun r => decide (r.status ≠ .close) && decide (r.upcStatus = .close)) =
      true := by
    decide +kernel
  obtain ⟨w,hr,hw⟩ := play_reaches _ (.start (singlePeer_start 1)) hplay
  obtain ⟨r,hget,hrec⟩ := (Option.any_eq_true _ _).mp hw
  obtain ⟨hs,hup⟩ := Bool.and_eq_true_iff.mp hrec
  exact ⟨w, r, hget, of_decide_eq_true hup,
    response_armed hr.reachable hget (of_decide_eq_true hs) (Or.inr (of_decide_eq_true hup))⟩

/-- The turn does not run `x_upstream_send_cb` until `EAGAIN`. -/
def SendsThrough (_ : World) (t : Turn) : Prop :=
  match t.event with
  | .fire _ .upcESend => t.sys.sends.getLast? ≠ some .eagain
  | _ => True

theorem sendsThrough_reaches {w : World} (h : Reaches proxy SendsThrough w) :
    Armed .pipe1 (rest w) := by
  refine reaches_along (Armed .pipe1) (fun _ h => start_armed h _) (fun _ _ h => h)
    (fun _ _ hI hA ha => act_armed ha hI _ hA) (fun w t u ho hsys _ hu hA => ?_) h
  refine rest_armed hA hu.busy fun c _ hm => ?_
  obtain ⟨he,used,hused,hlast⟩ := hu.incidents _ hm
  rw [hsys, List.append_nil] at hused
  unfold SendsThrough at ho
  rw [he, hused] at ho
  exact ho hlast

/-- As long as `x_upstream_send_cb` never ends with `EAGAIN`, a request whose
upstream is connected and that has a byte left has its sender active. -/
theorem request_armed {w : World} (h : Reaches proxy SendsThrough w) {c : ConnId} {r : XtpConn}
    (hr : w.conns.get c = some r) (hup : r.upcStatus = .working)
    (hheld : HoldsUnsent w c .pipe1) : w.loop c .upcESend = true := by
  have hB : Buffers (rest w) := (reaches_inv h).buffers
  have hne := (holdsUnsent_iff hB c .pipe1).mp hheld
  rcases sendsThrough_reaches h c r hr ⟨hup, Or.inl hne⟩ with hon | ⟨full,h⟩ | h | ⟨-,hm⟩
  · exact hon
  · cases h
  · cases h
  · exact absurd hm List.not_mem_nil

theorem silent_sendsThrough (w : World) {t : Turn} (h : t.sys.sends = []) : SendsThrough w t := by
  unfold SendsThrough
  split
  · simp [h]
  · trivial

theorem request_armed_oneConnected : ∃ w : World,
    HoldsUnsent w 0 .pipe1 ∧ w.loop 0 .upcESend = true := by
  have hplay : (play (fun _ t => t.sys.sends = []) (listener (singlePeer 1) (initialPool true))
      oneConnected).any (fun w => decide (unsent w 0 .pipe1 ≠ []) &&
        (w.conns.get 0).any fun r => decide (r.upcStatus = .working)) = true := by
    decide +kernel
  obtain ⟨w,hr,hw⟩ := play_reaches _ (.start (singlePeer_start 1)) hplay
  have hr := hr.mono fun w t h => silent_sendsThrough w (of_decide_eq_true h)
  obtain ⟨hne,hrec⟩ := Bool.and_eq_true_iff.mp hw
  obtain ⟨r,hget,hup⟩ := (Option.any_eq_true _ _).mp hrec
  have hB : Buffers (rest w) := (reaches_inv hr).buffers
  have hheld := (holdsUnsent_iff hB 0 .pipe1).mpr (of_decide_eq_true hne)
  exact ⟨w, hheld, request_armed hr hget (of_decide_eq_true hup) hheld⟩

/-- The upstream socket takes nothing for the moment. The byte stays in the
pipe, and nothing is left to send it. -/
theorem request_stalls :
    ¬ ∀ w c r, Reachable proxy w → w.conns.get c = some r → r.upcStatus = .working →
      HoldsUnsent w c .pipe1 → w.loop c .upcESend = true := by
  have hplay : (play (fun _ _ => true) (listener (singlePeer 1) (initialPool true))
      (oneConnected ++ [{ event := .fire 0 .upcESend, sys := { sends := [.eagain] } }])).any
      (fun w => decide (unsent w 0 .pipe1 ≠ []) && (!w.loop 0 .upcESend) &&
        (w.conns.get 0).any fun r => decide (r.upcStatus = .working)) = true := by
    decide +kernel
  obtain ⟨w,hr,hw⟩ := play_reaches _ (.start (singlePeer_start 1)) hplay
  have hr := hr.reachable
  simp only [Bool.and_eq_true, Option.any_eq_true, decide_eq_true_eq, Bool.not_eq_true'] at hw
  obtain ⟨⟨hne,hoff⟩,r,hget,hup⟩ := hw
  have hB : Buffers (rest w) := (reaches_inv hr).buffers
  intro h
  have hon := h w 0 r hr hget hup ((holdsUnsent_iff hB 0 .pipe1).mpr hne)
  rw [hoff] at hon
  cases hon

end TcpFunnel.WatcherInvariant
