import TcpFunnel.PipeFlow
import TcpFunnel.Runs
import TcpFunnel.Library.Relay

/-!
# The streams through the proxy

A pipe is a relay from one socket of a connection to the other. What it has
sent on is always the beginning of what it has received. What it holds comes
next as long as it may be sent at all, and nothing is missing unless the
reading side has broken off in the middle of a callback.
-/

set_option autoImplicit false

namespace TcpFunnel.StreamInvariant
open TcpFunnel.BufferPool TcpFunnel.Connection TcpFunnel.EventLoop TcpFunnel.Reachability
open TcpFunnel.Actions TcpFunnel.Invariants TcpFunnel.QueueInvariant TcpFunnel.RecordInvariant
open TcpFunnel.BufferInvariant TcpFunnel.StageInvariant TcpFunnel.StepSimulation
open TcpFunnel.TransferRuns TcpFunnel.PipeSimulation TcpFunnel.AccessSimulation TcpFunnel.PipeFlow
open TcpFunnel.Runs

def relay (w : World) (c : ConnId) (p : Pipe) : Relay UInt8 where
  arrived := arrived w c p
  departed := departed w c p
  held := unsent w c p

def UpstreamLeft (r : XtpConn) : Prop := r.upcStatus = .close → r.status = .waiting

def Kept (busy : Busy) (c : ConnId) (p : Pipe) (r : XtpConn) : Prop :=
  r.status ≠ .close ∧ busy ≠ .closing c ∧ (p = .pipe1 → UpstreamLeft r ∧ busy ≠ .losing c .pipe1)

/-- Nothing is missing from the pipe. For a response that has ended this is
claimed only where the loss of bytes is kept track of. -/
def Whole (tracked : Prop) (s : Stage) (c : ConnId) (p : Pipe) (r : XtpConn) : Prop :=
  p = .pipe2 → (UpstreamLeft r ∧ s.busy ≠ .losing c .pipe2) ∨
    (tracked ∧ .bytesLost c ∉ s.incidents)

structure Faithful (tracked : Prop) (s : Stage) (c : ConnId) (p : Pipe) : Prop where
  sound : (relay s.w c p).Sound
  inOrder : ∀ r, s.w.conns.get c = some r → Kept s.busy c p r → (relay s.w c p).InOrder
  lossless : ∀ r, s.w.conns.get c = some r → Kept s.busy c p r → Whole tracked s c p r →
    (relay s.w c p).Lossless
  fresh : s.w.conns.next ≤ c → arrived s.w c p = [] ∧ departed s.w c p = []

def Earlier (tracked : Prop) (s t : Stage) (c : ConnId) (p : Pipe) (r' : XtpConn) : Prop :=
  ∃ r, s.w.conns.get c = some r ∧ (Kept t.busy c p r' →
    Kept s.busy c p r ∧ (Whole tracked t c p r' → Whole tracked s c p r))

section flows

variable {tracked : Prop} {s t : Stage} {c : ConnId} {p : Pipe} {r r' : XtpConn}

theorem whole_filling (hI : Inv s) {full : Bool} (hb : s.busy = .filling c p full)
    (hr : s.w.conns.get c = some r) : Whole tracked s c p r := by
  rintro rfl
  refine Or.inl ⟨fun hup => ?_, by simp [hb]⟩
  have hopen : r.isOpen = true := hI.records.readable c .pipe2 full hb r hr
  rcases isOpen_iff.mp hopen with h | h <;> rw [h] at hup <;> cases hup

theorem kept_writable (hI : Inv s) (hb : s.busy = .idle) (hr : s.w.conns.get c = some r)
    (hp : Writable r p) : Kept s.busy c p r := by
  have hnot : ∀ q, s.busy ≠ .closing c ∧ s.busy ≠ .losing c q := by simp [hb]
  cases p with
  | pipe1 =>
    have hup : r.upcStatus = .working := hp
    have hs : r.status ≠ .close := by
      have hopen := (hI.records.phase c r hr).ofOpen (isOpen_iff.mpr (Or.inr hup))
      rcases hopen with h | h <;> rw [h] <;> decide
    have hleft : UpstreamLeft r := fun h => absurd (hup.symm.trans h) (by decide)
    exact ⟨hs, (hnot .pipe1).1, fun _ => ⟨hleft, (hnot .pipe1).2⟩⟩
  | pipe2 => exact ⟨hp, (hnot .pipe2).1, fun h => by cases h⟩

theorem not_kept_target (hb : s.busy = broken c p (target p)) : ¬ Kept s.busy c p r := by
  intro hk
  cases p with
  | pipe1 => exact (hk.2.2 rfl).2 hb
  | pipe2 => exact hk.2.1 hb

theorem flow_none (hI : Inv s) (h : Flow c p s t) (hnone : s.w.conns.get c = none) :
    relay t.w c p = relay s.w c p ∧ unsent s.w c p = [] := by
  have hempty : unsent s.w c p = [] := by simp [unsent, World.pipes, hnone]
  refine ⟨?_, hempty⟩
  have hlive : Busy.about s.busy ≠ some c := fun hb => hI.records.live c hb hnone
  cases h with
  | quiet hin hout hold =>
    unfold relay
    rw [hin, hout, hold]
  | filled xs hbusy => exact absurd (by rw [hbusy]; rfl) hlive
  | lost xs hbusy => exact absurd (by rw [hbusy]; rfl) hlive
  | dropped xs hbusy => exact absurd (by rw [hbusy]; rfl) hlive
  | drained xs r hr => exact absurd hr (by simp [hnone])
  | leaked xs ys r hr => exact absurd hr (by simp [hnone])

theorem flow_sound (hI : Inv s) (hF : Faithful tracked s c p) (h : Flow c p s t) :
    (relay t.w c p).Sound := by
  cases h with
  | quiet hin hout => exact hF.sound.keep hin hout
  | dropped xs hbusy hnext hin hout =>
    exact hF.sound.keep hin hout
  | filled xs hbusy hnext hin hout => exact hF.sound.receive hin hout
  | lost xs hbusy hnext hin hout => exact hF.sound.receive hin hout
  | drained xs r hr hp hbusy hnext hin hout hold =>
    have hordered := hF.inOrder r hr (kept_writable hI hbusy hr hp)
    exact (hordered.drain (t := relay t.w c p) hin hout hold).sound
  | leaked xs ys r hr hp hbusy hnext hin hout hrest hold =>
    exact (hF.inOrder r hr (kept_writable hI hbusy hr hp)).leak hin hout hrest

theorem flow_kept (hI : Inv s) (hF : Faithful tracked s c p) (h : Flow c p s t)
    (hk : Kept t.busy c p r') (hr : s.w.conns.get c = some r) (hks : Kept s.busy c p r)
    (hws : Whole tracked t c p r' → Whole tracked s c p r) :
    (relay t.w c p).InOrder ∧ (Whole tracked t c p r' → (relay t.w c p).Lossless) := by
  cases h with
  | quiet hin hout hold =>
    have hsame : relay t.w c p = relay s.w c p := by
      unfold relay
      rw [hin, hout, hold]
    rw [hsame]
    exact ⟨hF.inOrder r hr hks, fun hw => hF.lossless r hr hks (hws hw)⟩
  | filled xs hbusy hnext hin hout hold =>
    have hall := (hF.lossless r hr hks (whole_filling hI hbusy hr)).fill (t := relay t.w c p)
      hin hout hold
    exact ⟨hall.inOrder, fun _ => hall⟩
  | lost xs hbusy hnext hin hout hold hlost =>
    have hall := hF.lossless r hr hks (whole_filling hI hbusy hr)
    refine ⟨hall.inOrder.lose hin hout hold, fun hw => ?_⟩
    cases p with
    | pipe1 => exact absurd hnext hk.2.1
    | pipe2 =>
      rcases hw rfl with ⟨-,hb⟩ | ⟨-,hno⟩
      · exact absurd hnext hb
      · have hnil : xs = [] := by
          by_contra hne
          exact hno (hlost rfl hne)
        subst hnil
        exact hall.fill hin hout (by simpa [relay] using hold)
  | drained xs r₀ hr₀ hp hbusy hnext hin hout hold =>
    exact ⟨(hF.inOrder r hr hks).drain hin hout hold,
      fun hw => (hF.lossless r hr hks (hws hw)).drain hin hout hold⟩
  | leaked xs ys r₀ hr₀ hp hbusy hnext => exact absurd hk (not_kept_target hnext)
  | dropped xs hbusy hnext => exact absurd hnext hk.2.1

theorem faithful_step (hI : Inv s) (hF : Faithful tracked s c p) (h : Flow c p s t)
    (hnext : s.w.conns.next ≤ t.w.conns.next)
    (hback : ∀ r', t.w.conns.get c = some r' →
      Earlier tracked s t c p r' ∨ s.w.conns.next ≤ c) : Faithful tracked t c p := by
  have hnew : s.w.conns.next ≤ c → relay t.w c p = ⟨[], [], []⟩ := by
    intro hle
    obtain ⟨hsame,hempty⟩ := flow_none hI h (hI.records.wellFormed c hle)
    obtain ⟨hin,hout⟩ := hF.fresh hle
    rw [hsame, relay, hin, hout, hempty]
  have hkeep : ∀ r', t.w.conns.get c = some r' → Kept t.busy c p r' →
      (relay t.w c p).InOrder ∧ (Whole tracked t c p r' → (relay t.w c p).Lossless) := by
    intro r' hr' hk
    rcases hback r' hr' with ⟨r,hr,hearlier⟩ | hle
    · obtain ⟨hks,hws⟩ := hearlier hk
      exact flow_kept hI hF h hk hr hks hws
    · rw [hnew hle]
      exact ⟨List.prefix_rfl, fun _ => rfl⟩
  refine ⟨flow_sound hI hF h, fun r' hr' hk => (hkeep r' hr' hk).1,
    fun r' hr' hk => (hkeep r' hr' hk).2, fun hle => ?_⟩
  have hempty := hnew (Nat.le_trans hnext hle)
  exact ⟨congrArg Relay.arrived hempty, congrArg Relay.departed hempty⟩

theorem earlier_mono (hr : s.w.conns.get c = some r) (hs : r'.status ≠ .close → r.status ≠ .close)
    (hu : UpstreamLeft r' → UpstreamLeft r) (hclosing : s.busy = .closing c → t.busy = .closing c)
    (hlosing : ∀ q, s.busy = .losing c q → t.busy = .losing c q)
    (hi : s.incidents ⊆ t.incidents) : Earlier tracked s t c p r' := by
  refine ⟨r, hr, fun hk => ⟨⟨hs hk.1, fun h => hk.2.1 (hclosing h), fun hp => ?_⟩, fun hw hp => ?_⟩⟩
  · obtain ⟨hleft,hb⟩ := hk.2.2 hp
    exact ⟨hu hleft, fun h => hb (hlosing _ h)⟩
  · rcases hw hp with ⟨hleft,hb⟩ | ⟨htr,hno⟩
    · exact Or.inl ⟨hu hleft, fun h => hb (hlosing _ h)⟩
    · exact Or.inr ⟨htr, fun h => hno (hi h)⟩

theorem earlier_same (hget : t.w.conns.get c = s.w.conns.get c) (hr' : t.w.conns.get c = some r')
    (hclosing : s.busy = .closing c → t.busy = .closing c)
    (hlosing : ∀ q, s.busy = .losing c q → t.busy = .losing c q)
    (hi : s.incidents ⊆ t.incidents) : Earlier tracked s t c p r' :=
  earlier_mono (hget.symm.trans hr') id id hclosing hlosing hi

theorem earlier_ended {w : World} {busy : Busy} {fs : List Failure} {is : List Incident}
    (hr : w.conns.get c = some r)
    (hbusy : busy = .idle ∨ (∃ q, busy = .losing c q) ∨ busy = .closing c)
    (hnot : r.status ≠ .waiting) :
    Earlier tracked ⟨w, busy, false, fs, is⟩
      ⟨closedUpstream w c r, afterClosing busy, true, fs, is⟩ c p
        { r with upcStatus := .close } := by
  have hgone : ¬ UpstreamLeft { r with upcStatus := .close } := fun h => hnot (h rfl)
  refine ⟨r, hr, fun hk => ⟨⟨hk.1, fun h => ?_, fun hp => ?_⟩, fun hw hp => ?_⟩⟩
  · have hclosing : busy = .closing c := h
    subst hclosing
    exact hk.2.1 rfl
  · exact absurd (hk.2.2 hp).1 hgone
  · exact (hw hp).imp_left fun h => absurd h.1 hgone

theorem earlier_closed (hr : s.w.conns.get c = some r)
    (hend : r'.status = .close ∨ t.busy = .closing c) : Earlier tracked s t c p r' :=
  ⟨r, hr, fun hk => hend.elim (fun h => absurd h hk.1) (fun h => absurd h hk.2.1)⟩

end flows

section actions

variable {o : Option ConnId} {tracked : ConnId → Prop} {s t : Stage}

def Streams (tracked : ConnId → Prop) (s : Stage) : Prop := ∀ c p, Faithful (tracked c) s c p

theorem streams_same (hI : Inv s) (hS : Streams tracked s) (h : Act o s t)
    (hconns : t.w.conns = s.w.conns)
    (hclosing : ∀ c, s.busy = .closing c → t.busy = .closing c)
    (hlosing : ∀ c q, s.busy = .losing c q → t.busy = .losing c q) : Streams tracked t := by
  intro c p
  refine faithful_step hI (hS c p) (act_flow h hI c p) (by rw [hconns]) fun r' hr' => Or.inl ?_
  exact earlier_same (by rw [hconns]) hr' (hclosing c) (hlosing c) (act_incidents_subset h)

theorem streams_put (hI : Inv s) (hS : Streams tracked s) (h : Act o s t) {d : ConnId}
    {r r' : XtpConn} (hr : s.w.conns.get d = some r) (hput : t.w.conns = s.w.conns.set d r')
    (hclosing : ∀ c, c ≠ d → s.busy = .closing c → t.busy = .closing c)
    (hlosing : ∀ c q, c ≠ d → s.busy = .losing c q → t.busy = .losing c q)
    (hown : ∀ p, Earlier (tracked d) s t d p r') :
    Streams tracked t := by
  intro c p
  refine faithful_step hI (hS c p) (act_flow h hI c p) (by rw [hput]; rfl) fun rc hrc => Or.inl ?_
  have hget := hrc
  rw [hput, Store.set_some] at hrc
  rcases hrc with ⟨rfl,rfl⟩ | ⟨hne,hrc⟩
  · exact hown p
  · exact earlier_same (hget.trans hrc.symm) hget (hclosing c hne) (fun q => hlosing c q hne)
      (act_incidents_subset h)

theorem act_streams (h : Act o s t) (hI : Inv s) (hS : Streams tracked s) : Streams tracked t := by
  have hact := h
  have hi := act_incidents_subset h
  cases h with
  | answers | mallocs | countMax | addBlock | pass | drain | stopTimer | stopUpcTimer
  | restClient =>
    exact streams_same hI hS hact rfl (fun _ => id) (fun _ _ => id)
  | beginFill | fill | answered | leak | doom =>
    exact streams_same hI hS hact rfl (fun _ h => by cases h) (fun _ _ h => by cases h)
  | requested =>
    refine streams_same hI hS hact ?_ (fun _ h => by cases h) (fun _ _ h => by cases h)
    dsimp only
    split <;> rfl
  | lose =>
    exact streams_same hI hS hact rfl (fun _ h => by cases h) (fun _ _ h => by cases h)
  | restUpstream =>
    exact streams_same hI hS hact rfl (fun _ => id) (fun _ _ => id)
  | link hr =>
    refine streams_put hI hS hact hr rfl (fun _ _ h => by cases h) (fun _ _ _ h => by cases h)
      fun p => ?_
    exact earlier_mono hr (by simp) (by simp [UpstreamLeft]) (fun h => by cases h)
      (fun _ h => by cases h) hi
  | unlink hr =>
    refine streams_put hI hS hact hr rfl (fun _ _ => id) (fun _ _ _ => id)
      fun p => ?_
    exact earlier_mono hr (by simp) (by simp [UpstreamLeft]) id (fun _ => id) hi
  | @enqueue w fs is c r hr hs =>
    have hup : r.upcStatus = .none := (hI.records.phase c r hr).ofNone hs
    refine streams_put hI hS hact hr rfl (fun _ _ => id) (fun _ _ _ => id)
      fun p => ?_
    exact earlier_mono hr (by simp [hs]) (by simp [UpstreamLeft, hup]) id (fun _ => id) hi
  | noSocket leaked hs hi hr =>
    refine streams_put hI hS hact hr (abandoned_conns ..) (fun _ _ => id) (fun _ _ _ => id)
      fun p => ?_
    exact earlier_mono hr id id id (fun _ => id) hi
  | promote hs hi hr =>
    have hwait := (scheduled_waiting hI.queue rfl hs hr).1
    refine streams_put hI hS hact hr (promoted_conns ..) (fun _ _ => id) (fun _ _ _ => id)
      fun p => ?_
    exact earlier_mono hr (by simp [hwait]) (fun _ _ => hwait) id (fun _ => id) hi
  | refuse hs hi hr =>
    have hwait := (scheduled_waiting hI.queue rfl hs hr).1
    refine streams_put hI hS hact hr (closedUpstream_conns ..) (fun _ _ => id) (fun _ _ _ => id)
      fun p => ?_
    exact earlier_mono hr id (fun _ _ => hwait) id (fun _ => id) hi
  | connect timeout hr hup =>
    refine streams_put hI hS hact hr (connected_conns ..) (fun _ _ => id) (fun _ _ _ => id)
      fun p => ?_
    exact earlier_mono hr id (by simp [UpstreamLeft, hup]) id (fun _ => id) hi
  | @closeUpstream w busy fs is c r hr hup hbusy =>
    have hnot : r.status ≠ .waiting := by
      have hopen := (hI.records.phase c r hr).ofOpen hup
      rcases hopen with h | h <;> rw [h] <;> decide
    refine streams_put hI hS hact hr (closedUpstream_conns ..) ?_ ?_ fun p => ?_
    · rintro d hne h
      rcases hbusy with rfl | ⟨q,rfl⟩ | rfl <;> cases h
      exact absurd rfl hne
    · rintro d q hne h
      rcases hbusy with rfl | ⟨q,rfl⟩ | rfl <;> cases h
      exact absurd rfl hne
    · exact earlier_ended hr hbusy hnot
  | timeOut hr hs =>
    refine streams_put hI hS hact hr rfl (fun _ _ h => by cases h) (fun _ _ _ h => by cases h)
      fun p => ?_
    exact earlier_closed hr (Or.inr rfl)
  | closeClient hr =>
    refine streams_put hI hS hact hr (closedClient_conns ..) (fun _ _ => id) (fun _ _ _ => id)
      fun p => ?_
    exact earlier_closed hr (Or.inr rfl)
  | @settle w fs is d r hr hs =>
    refine streams_put hI hS hact hr (Store.set_self hr).symm ?_ (fun _ _ _ h => by cases h)
      fun p => earlier_closed hr (Or.inl hs)
    rintro c hne h
    cases h
    exact absurd rfl hne
  | @free w fs is d =>
    intro c p
    refine faithful_step hI (hS c p) (act_flow hact hI c p) (Nat.le_refl _) fun r' hr' => Or.inl ?_
    obtain ⟨hne,hget⟩ := (Store.free_some ..).mp hr'
    refine earlier_same (hr'.trans hget.symm) hr' (fun h => ?_) (fun _ h => by cases h) hi
    cases h
    exact absurd rfl hne
  | @welcome w fs is fd =>
    intro c p
    refine faithful_step hI (hS c p) (act_flow hact hI c p) (by simp) fun r' hr' => ?_
    by_cases hc : c = w.conns.next
    · exact Or.inr (Nat.le_of_eq hc.symm)
    · have hget : w.conns.get c = some r' := by simpa [hc] using hr'
      exact Or.inl (earlier_same (hr'.trans hget.symm) hr' id (fun _ => id) hi)
  | turnAway =>
    exact streams_same hI hS hact (by simp) (fun _ => id) (fun _ _ => id)

end actions

variable {tracked : ConnId → Prop}

theorem start_streams {w : World} (h : Start w) : Streams tracked (rest w) := by
  obtain ⟨srvcf,mallocs,heap,-,-,-,rfl⟩ := h
  intro c p
  refine ⟨List.prefix_rfl, ?_, ?_, fun _ => ⟨rfl, rfl⟩⟩
  · rintro r ⟨⟩
  · rintro r ⟨⟩

theorem supply_streams {w : World} {t : Turn} (h : Streams tracked (rest w)) :
    Streams tracked (rest (supply w t)) :=
  fun c p => ⟨(h c p).1, (h c p).2, (h c p).3, (h c p).4⟩

theorem rest_streams {u : Stage} (h : Streams tracked u) (hb : u.busy = .idle ∨ u.busy = .over)
    (hi : ∀ c, tracked c → .bytesLost c ∉ u.incidents) : Streams tracked (rest u.w) := by
  have hkept : ∀ c p r, Kept (rest u.w).busy c p r → Kept u.busy c p r := by
    intro c p r hk
    refine ⟨hk.1, ?_, fun hp => ⟨(hk.2.2 hp).1, ?_⟩⟩ <;> rcases hb with hb | hb <;> simp [hb]
  intro c p
  refine ⟨(h c p).sound, fun r hr hk => (h c p).inOrder r hr (hkept c p r hk),
    fun r hr hk hw => (h c p).lossless r hr (hkept c p r hk) fun hp => ?_, (h c p).fresh⟩
  rcases hw hp with ⟨hleft,-⟩ | ⟨htr,-⟩
  · refine Or.inl ⟨hleft, ?_⟩
    rcases hb with hb | hb <;> simp [hb]
  · exact Or.inr ⟨htr, hi c htr⟩

/-- In every moment the bytes sent to an upstream, or to a client, are the
first of those that have been received for it, in their order. -/
theorem sent_prefix {w : World} (h : Moment w) (c : ConnId) :
    departed w c .pipe1 <+: arrived w c .pipe1 ∧ departed w c .pipe2 <+: arrived w c .pipe2 := by
  obtain ⟨u,-,hS,hio,-⟩ := moment_along (Streams fun _ => False) (fun _ h => start_streams h)
    (fun _ _ h => supply_streams h) (fun _ _ hI hS ha => act_streams ha hI hS)
    (fun _ hb hS => rest_streams hS hb fun _ => False.elim) h
  have hp : ∀ p, departed w c p <+: arrived w c p := by
    intro p
    unfold departed arrived
    rw [hio]
    exact (hS c p).sound
  exact ⟨hp .pipe1, hp .pipe2⟩

theorem sent_prefix_oneConnected : ∃ w, departed w 0 .pipe1 = [1] ∧
    departed w 0 .pipe1 <+: arrived w 0 .pipe1 ∧ departed w 0 .pipe2 <+: arrived w 0 .pipe2 := by
  have hplay : (play (fun _ _ => true) (listener (singlePeer 1) (initialPool true))
      (oneConnected ++ [{ event := .fire 0 .upcESend, sys := { sends := [.sent 1] } }])).any
      (fun w => departed w 0 .pipe1 = [1]) = true := by
    decide +kernel
  obtain ⟨w,hr,hw⟩ := play_reaches _ (.start (singlePeer_start 1)) hplay
  exact ⟨w, of_decide_eq_true hw, sent_prefix (.between hr.reachable) 0⟩

/-- The turn does not run `x_upstream_recv_cb` on `c` with a stream that ends
behind bytes received in the same turn and not yet counted. -/
def Uncut (c : ConnId) (w : World) (t : Turn) : Prop :=
  t.event = .fire c .upcERecv → ¬ CutShort (room w c .pipe2) (capacity w.heap) t.sys.recvs

theorem uncut_streams {c : ConnId} {w : World} (h : Reaches proxy (Uncut c) w) :
    Streams (· = c) (rest w) := by
  refine reaches_along (Streams (· = c)) (fun _ h => start_streams h)
    (fun _ _ h => supply_streams h) (fun _ _ hI hS ha => act_streams ha hI hS)
    (fun w t u ho _ _ hu hS => rest_streams hS hu.busy ?_) h
  rintro d rfl hm
  obtain ⟨he,hcut⟩ := hu.incidents _ hm
  exact ho he hcut

/-- A client that `x_send_cb` closes without an error has been sent every byte
of the response, as long as none was lost in `x_upstream_recv_cb`. -/
theorem response_complete {w w' : World} {t : Turn} {c : ConnId} {r : XtpConn}
    (h : Reaches proxy (Uncut c) w) (hstep : Step w t w') (he : t.event = .fire c .eSend)
    (hsent : ∀ a ∈ t.sys.sends, ¬ EndsSend a) (hr : w'.conns.get c = some r)
    (hs : r.status = .close) : departed w' c .pipe2 = arrived w' c .pipe2 := by
  have hI := reaches_inv h
  obtain ⟨u,-,rfl,hu⟩ := returned_path hI hstep.1 hstep.2.1
  rcases hu.closed c he with hopen | ⟨a,ha,hend⟩ | ⟨m,hm,hidle,⟨r',hr',hs'⟩,hempty,hinc,hio⟩
  · exact absurd hs (hopen r hr)
  · exact absurd hend (hsent a ha)
  · have hS := path_along (Streams (· = c)) (fun _ _ hI hS ha => act_streams ha hI hS)
      (supply_inv t hI) (supply_streams (uncut_streams h)) hm
    have hkept : Kept m.busy c .pipe2 r' := ⟨hs', by simp [hidle], by rintro ⟨⟩⟩
    have hwhole : Whole (c = c) m c .pipe2 r' := fun _ => Or.inr ⟨rfl, by simp [hinc, rest]⟩
    have hall := ((hS c .pipe2).lossless r' hr' hkept hwhole).complete hempty
    unfold departed arrived
    rw [hio]
    exact hall

def answers (c : ConnId) (recvs : List RecvAnswer) (mallocs : List Bool) : Turn where
  event := .fire c .upcERecv
  sys := { recvs := recvs }
  mallocs := mallocs

def apart (recvs : List RecvAnswer) : Bool :=
  recvs.all (fun a => recvBytes a = []) || recvs.all (fun a => a ≠ .got [] && a ≠ .error)

theorem apart_uncut {room cap : ℕ} {recvs : List RecvAnswer} (h : apart recvs = true) :
    ¬ CutShort room cap recvs := by
  rintro ⟨pre,last,post,rfl,⟨front,bytes,k,rfl,hb⟩,hlast,-⟩
  rcases Bool.or_eq_true_iff.mp h with h | h
  · have hnil := List.all_eq_true.mp h (.got bytes) (by simp)
    exact hb (of_decide_eq_true hnil)
  · have hnot := List.all_eq_true.mp h last (by simp)
    rcases hlast with rfl | rfl <;> simp at hnot

theorem response_complete_byte : ∃ w, departed w 0 .pipe2 = [7] ∧
    departed w 0 .pipe2 = arrived w 0 .pipe2 := by
  have hplay : (play (fun _ t => apart t.sys.recvs) (listener (singlePeer 1) (initialPool true))
      [comes 5, asks 0 1 [.inProgress] [], answers 0 [.got [7], .eagain, .eagain] [true],
        answers 0 [.got []] []]).any (fun w => (play (fun _ _ => true) w
          [{ event := .fire 0 .eSend, sys := { sends := [.sent 1] } }]).any fun w' =>
            decide (departed w' 0 .pipe2 = [7]) &&
              (w'.conns.get 0).any fun r => r.status = .close) = true := by
    decide +kernel
  obtain ⟨w,hr,hw⟩ := play_reaches _ (.start (singlePeer_start 1)) hplay
  obtain ⟨w',hstep,hw'⟩ := play_step hw
  obtain ⟨hout,hrec⟩ := Bool.and_eq_true_iff.mp hw'
  obtain ⟨r,hget,hs⟩ := (Option.any_eq_true _ _).mp hrec
  refine ⟨w', of_decide_eq_true hout, ?_⟩
  exact response_complete (hr.mono fun _ _ h _ => apart_uncut h) hstep rfl (by simp [EndsSend]) hget
    (of_decide_eq_true hs)

/-- The byte and the end of the stream come in one turn, and the client is
closed without the byte. -/
theorem response_cut :
    ¬ ∀ w w' t c r, Reachable proxy w → Step w t w' → t.event = .fire c .eSend →
      (∀ a ∈ t.sys.sends, ¬ EndsSend a) → w'.conns.get c = some r → r.status = .close →
      departed w' c .pipe2 = arrived w' c .pipe2 := by
  have hplay : (play (fun _ _ => true) (listener (singlePeer 1) (initialPool true))
      [comes 5, asks 0 1 [.inProgress] [], answers 0 [.got [42], .got []] [true]]).any
      (fun w => (play (fun _ _ => true) w [{ event := .fire 0 .eSend }]).any fun w' =>
        decide (departed w' 0 .pipe2 ≠ arrived w' 0 .pipe2) &&
          (w'.conns.get 0).any fun r => r.status = .close) = true := by
    decide +kernel
  obtain ⟨w,hr,hw⟩ := play_reaches _ (.start (singlePeer_start 1)) hplay
  obtain ⟨w',hstep,hw'⟩ := play_step hw
  obtain ⟨hne,hrec⟩ := Bool.and_eq_true_iff.mp hw'
  obtain ⟨r,hget,hs⟩ := (Option.any_eq_true _ _).mp hrec
  intro h
  exact of_decide_eq_true hne (h w w' _ 0 r hr.reachable hstep rfl (by simp) hget
    (of_decide_eq_true hs))

end TcpFunnel.StreamInvariant
