import TcpFunnel.QueueInvariant

/-!
# The records under every action

An action changes the phases and watchers of one connection at most. What the
others need is that the connection being closed stays the same.
-/

set_option autoImplicit false

namespace TcpFunnel.RecordInvariant
open TcpFunnel.BufferPool TcpFunnel.Connection TcpFunnel.Actions TcpFunnel.Invariants
open TcpFunnel.QueueInvariant

variable {o : Option ConnId} {s t : Stage}

section phases

variable {busy busy' : Busy} {peers : ℕ} {c : ConnId} {r r' : XtpConn} {on on' : Watcher → Bool}

theorem phase_mono (h : Phase busy peers c r on) (hb : busy = .closing c → busy' = .closing c) :
    Phase busy' peers c r on :=
  { h with
    status := by
      rcases h.status with h | h | h | h | h
      · exact Or.inl h
      · exact Or.inr (Or.inl h)
      · exact Or.inr (Or.inr (Or.inl h))
      · exact Or.inr (Or.inr (Or.inr (Or.inl h)))
      · exact Or.inr (Or.inr (Or.inr (Or.inr ⟨h.1, hb h.2⟩)))
    eTimer := h.eTimer.imp_right hb }

theorem isOpen_iff : r.isOpen = true ↔ r.upcStatus = .connect ∨ r.upcStatus = .working := by
  simp [XtpConn.isOpen]

theorem phase_congr (h : Phase busy peers c r on) (hs : r'.status = r.status)
    (hu : r'.upcStatus = r.upcStatus) (hf : r'.upcf = r.upcf) : Phase busy peers c r' on := by
  obtain ⟨h1,h2,h3,h4,h5,h6,h7,h8,h9,h10,h11,h12,h13⟩ := h
  have ho : r'.isOpen = r.isOpen := by simp [XtpConn.isOpen, hu]
  rw [← hs] at h1 h3 h4 h5 h7 h8
  rw [← hu] at h2 h4 h5 h6 h10 h11
  rw [← ho] at h3 h9 h12
  rw [← hf] at h6
  exact ⟨h1, h2, h3, h4, h5, h6, h7, h8, h9, h10, h11, h12, h13⟩

/-- The watcher `k` may be set to `v` in this phase. -/
def MaySet (busy : Busy) (c : ConnId) (r : XtpConn) (v : Bool) : Watcher → Prop
  | .eSend => v = true → r.status ≠ .close
  | .upcESend => v = true → r.upcStatus = .working
  | .upcETimer => v = false
  | .eTimer => busy = .closing c
  | _ => False

theorem phase_watcher (h : Phase busy peers c r on) {k : Watcher} {v : Bool}
    (hk : MaySet busy c r v k) (hon : ∀ j, on' j = if j = k then v else on j) :
    Phase busy peers c r on' := by
  obtain ⟨h1,h2,h3,h4,h5,h6,h7,h8,h9,h10,h11,h12,h13⟩ := h
  cases k <;> simp only [MaySet] at hk <;> constructor <;> simp_all

theorem phase_enqueued (h : Phase busy peers c r on) (hs : r.status = .none) :
    Phase busy peers c { r with status := .waiting } on := by
  obtain ⟨h1,h2,h3,h4,h5,h6,h7,h8,h9,h10,h11,h12,h13⟩ := h
  have hu := h4 hs
  constructor <;> simp_all [XtpConn.isOpen]

theorem phase_promoted (h : Phase busy peers c r on) (hs : r.status = .waiting)
    (ho : r.isOpen = false) {i : ℕ} (hi : i < peers) (fd : ℤ)
    (hon : ∀ k, on' k = if k = .upcERecv ∨ k = .upcEConnected ∨ k = .upcETimer
      then true else on k) :
    Phase busy peers c { dialledConn r i fd with status := .working } on' := by
  obtain ⟨h1,h2,h3,h4,h5,h6,h7,h8,h9,h10,h11,h12,h13⟩ := h
  constructor <;> simp_all [XtpConn.isOpen, dialledConn]

theorem phase_abandoned (h : Phase busy peers c r on) {i : ℕ} (hi : i < peers) :
    Phase busy peers c { r with upcf := some i } on := by
  obtain ⟨h1,h2,h3,h4,h5,-,h7,h8,h9,h10,h11,h12,h13⟩ := h
  exact ⟨h1, h2, h3, h4, h5, fun _ => ⟨i, hi, rfl⟩, h7, h8, h9, h10, h11, h12, h13⟩

theorem phase_refused (h : Phase busy peers c r on) (hs : r.status = .waiting) {i : ℕ}
    (hi : i < peers) (fd : ℤ)
    (hon : ∀ k, on' k = if k = .upcERecv ∨ k = .upcESend ∨ k = .upcEConnected ∨ k = .upcETimer
      then false else if k = .eSend then true else on k) :
    Phase busy peers c { dialledConn r i fd with upcStatus := .close } on' := by
  obtain ⟨h1,h2,h3,h4,h5,h6,h7,h8,h9,h10,h11,h12,h13⟩ := h
  constructor <;> simp_all [XtpConn.isOpen, dialledConn]

theorem phase_connected (h : Phase busy peers c r on) (hu : r.upcStatus = .connect) (period : ℤ)
    (hon : ∀ k, on' k = if k = .upcEConnected then false else if k = .upcESend then true
      else if k = .upcETimer then decide (period ≠ 0) else on k) :
    Phase busy peers c { r with upcTimerRepeat := period, upcStatus := .working } on' := by
  obtain ⟨h1,h2,h3,h4,h5,h6,h7,h8,h9,h10,h11,h12,h13⟩ := h
  constructor <;> simp_all [XtpConn.isOpen]

theorem phase_closedUpstream (h : Phase busy peers c r on) (hu : r.upcStatus ≠ .none)
    (hon : ∀ k, on' k = if k = .upcERecv ∨ k = .upcESend ∨ k = .upcEConnected ∨ k = .upcETimer
      then false else if k = .eSend ∧ r.status ≠ .close then true else on k) :
    Phase busy peers c { r with upcStatus := .close } on' := by
  obtain ⟨h1,h2,h3,h4,h5,h6,h7,h8,h9,h10,h11,h12,h13⟩ := h
  by_cases hs : r.status = .close <;> constructor <;> simp_all [XtpConn.isOpen]

theorem phase_timedOut (h : Phase busy peers c r on) (hs : r.status ≠ .close) :
    Phase (.closing c) peers c { r with status := .timeout } on := by
  obtain ⟨h1,h2,h3,h4,h5,h6,h7,h8,h9,h10,h11,h12,h13⟩ := h
  constructor <;> simp_all [XtpConn.isOpen]

theorem phase_closedClient (h : Phase (.closing c) peers c r on) (ho : r.isOpen = false)
    (hon : ∀ k, on' k = if k = .eRecv ∨ k = .eSend then false else if k = .eTimer then true
      else on k) :
    Phase (.closing c) peers c { r with timerRepeat := connFreeTimeout, status := .close } on' := by
  obtain ⟨h1,h2,h3,h4,h5,h6,h7,h8,h9,h10,h11,h12,h13⟩ := h
  constructor <;> simp_all [XtpConn.isOpen]

theorem phase_new (fd timeout : ℤ) (hon : ∀ k, on k = decide (k = .eRecv ∨ k = .eTimer)) :
    Phase busy peers c (Access.newConn fd timeout) on := by
  constructor <;> simp [hon, Access.newConn, XtpConn.isOpen]

end phases

theorem put_records (hR : Records s) {c : ConnId} {r r' : XtpConn}
    (hput : t.w.conns = s.w.conns.set c r') (hr : s.w.conns.get c = some r)
    (hpeers : t.w.ln.srvcf.upstream = s.w.ln.srvcf.upstream)
    (hloop : ∀ d, d ≠ c → t.w.loop d = s.w.loop d)
    (hbusy : ∀ d, d ≠ c → s.busy = .closing d → t.busy = .closing d)
    (hphase : Phase s.busy s.w.ln.srvcf.upstream.length c r (s.w.loop c) →
      Phase t.busy s.w.ln.srvcf.upstream.length c r' (t.w.loop c))
    (habout : ∀ d, d ≠ c → Busy.about t.busy = some d → Busy.about s.busy = some d)
    (hread : ∀ d p full, t.busy = .filling d p full →
      (∃ full', s.busy = .filling d p full') ∧ (d = c → Readable r p → Readable r' p)) :
    Records t where
  wellFormed := by
    rw [hput]
    exact hR.wellFormed.set (hR.wellFormed.lt hr) r'
  absent := by
    intro d hd
    rw [hput, Store.set_get] at hd
    split at hd
    · cases hd
    · rename_i hne
      rw [hloop d hne]
      exact hR.absent d hd
  phase := by
    intro d rd hd
    rw [hpeers]
    rw [hput, Store.set_some] at hd
    rcases hd with ⟨rfl,rfl⟩ | ⟨hne,hd⟩
    · exact hphase (hR.phase d r hr)
    · rw [hloop d hne]
      exact phase_mono (hR.phase d rd hd) (hbusy d hne)
  live := by
    intro d hd
    rw [hput, Store.set_get]
    split
    · simp
    · rename_i hne
      exact hR.live d (habout d hne hd)
  readable := by
    intro d p full hd rd hrd
    obtain ⟨⟨full',hf⟩,hc⟩ := hread d p full hd
    rw [hput, Store.set_some] at hrd
    rcases hrd with ⟨rfl,rfl⟩ | ⟨-,hrd⟩
    · exact hc rfl (hR.readable d p full' hf r hr)
    · exact hR.readable d p full' hf rd hrd

theorem same_records (hR : Records s) (hconns : t.w.conns = s.w.conns)
    (hpeers : t.w.ln.srvcf.upstream = s.w.ln.srvcf.upstream) (hloop : t.w.loop = s.w.loop)
    (hbusy : ∀ d, s.busy = .closing d → t.busy = .closing d)
    (habout : ∀ d, Busy.about t.busy = some d → s.w.conns.get d ≠ none)
    (hread : ∀ d p full, t.busy = .filling d p full → ∀ r, s.w.conns.get d = some r →
      Readable r p) : Records t where
  wellFormed := hconns ▸ hR.wellFormed
  absent := by rw [hconns, hloop]; exact hR.absent
  phase := by
    rw [hconns, hpeers, hloop]
    exact fun d r hd => phase_mono (hR.phase d r hd) (hbusy d)
  live := by rw [hconns]; exact habout
  readable := by rw [hconns]; exact hread

theorem watcher_records (hR : Records s) {c : ConnId} {r : XtpConn} {k : Watcher} {v : Bool}
    (hr : s.w.conns.get c = some r) (hw : t.w = s.w.setWatcher c k v)
    (hbusy : t.busy = s.busy ∨ t.busy = .idle ∧ ∀ d, s.busy ≠ .closing d)
    (hk : MaySet s.busy c r v k) : Records t := by
  have hmono : ∀ d, s.busy = .closing d → t.busy = .closing d := by
    intro d hd
    rcases hbusy with hb | hb
    · rw [hb, hd]
    · exact absurd hd (hb.2 d)
  have hput : t.w.conns = s.w.conns.set c r := by
    rw [hw, Store.set_self hr]
    rfl
  refine put_records hR hput hr (by rw [hw]; rfl) ?_ (fun d _ => hmono d) (fun h => ?_) ?_ ?_
  · intro d hd
    funext j
    simp [hw, hd]
  · exact phase_mono (phase_watcher h hk (fun j => by simp [hw])) (hmono c)
  · intro d _ hd
    rcases hbusy with hb | hb
    · rwa [← hb]
    · rw [hb.1] at hd
      cases hd
  · intro d p full hd
    refine ⟨⟨full, ?_⟩, fun _ h => h⟩
    rcases hbusy with hb | hb
    · rwa [← hb]
    · rw [hb.1] at hd
      cases hd

theorem free_records (hR : Records s) {c : ConnId} {r : XtpConn} (hr : s.w.conns.get c = some r)
    (hs : r.status = .close) (ho : r.isOpen = false) (htimer : s.w.loop c .eTimer = false)
    (hbusy : s.busy = .closing c) {due : Bool} {fs : List Failure} {is : List Incident} :
    Records ⟨freed s.w c, .over, due, fs, is⟩ where
  wellFormed := hR.wellFormed.free c
  absent := by
    intro d hd k
    rw [freed_conns, Store.free_get] at hd
    split at hd
    · rename_i hdc
      subst hdc
      obtain ⟨h1,h2,h3,h4,h5,h6,h7,h8,h9,h10,h11,h12,h13⟩ := hR.phase d r hr
      have hu : r.upcStatus ≠ .connect ∧ r.upcStatus ≠ .working := by
        simpa [XtpConn.isOpen] using ho
      cases k <;> simp_all
    · exact hR.absent d hd k
  phase := by
    intro d rd hd
    obtain ⟨hne,hd⟩ := (Store.free_some ..).mp hd
    refine phase_mono (hR.phase d rd hd) ?_
    rw [hbusy]
    intro h
    cases h
    exact absurd rfl hne
  live := by simp [Busy.about]
  readable := by simp

theorem welcome_records (hR : Records s) (fd : ℤ) (hbusy : s.busy = .idle) {due : Bool}
    {fs : List Failure} {is : List Incident} :
    Records ⟨admitted (accepted s.w fd) fd, .idle, due, fs, is⟩ where
  wellFormed := by
    simp only [admitted_conns, accepted_frame]
    exact hR.wellFormed.push _
  absent := by
    intro d hd k
    simp only [admitted_conns, accepted_frame, Store.push_get] at hd
    split at hd
    · cases hd
    · rename_i hne
      simp only [admitted_loop, accepted_frame, hne, false_and, if_false]
      exact hR.absent d hd k
  phase := by
    intro d rd hd
    simp only [admitted_conns, accepted_frame] at hd
    simp only [admitted_frame, accepted_frame]
    rcases (Store.push_some ..).mp hd with ⟨rfl,rfl⟩ | ⟨hne,hd⟩
    · refine phase_new _ _ fun k => ?_
      simp [hR.absent _ (hR.wellFormed _ (Nat.le_refl _))]
    · rw [show (admitted (accepted s.w fd) fd).loop d = s.w.loop d by funext k; simp [hne]]
      exact phase_mono (hR.phase d rd hd) (by simp [hbusy])
  live := by simp [Busy.about]
  readable := by simp

theorem dialled_other (w : World) (c : ConnId) (i : ℕ) (fd : ℤ) {d : ConnId} (hd : d ≠ c) :
    (dialled w c i fd).loop d = w.loop d := by
  funext k
  simp [hd]

theorem closedUpstream_other (w : World) (c : ConnId) (r : XtpConn) {d : ConnId} (hd : d ≠ c) :
    (closedUpstream w c r).loop d = w.loop d := by
  funext k
  simp [hd]

theorem act_records (h : Act o s t) (hR : Records s) (hq : Queue s) : Records t := by
  cases h with
  | answers | mallocs | countMax | addBlock | pass =>
    exact same_records hR rfl rfl rfl (fun _ h => h) hR.live hR.readable
  | drain => exact same_records hR rfl rfl rfl (by simp) (by simp [Busy.about]) (by simp)
  | fill _ hr =>
    refine same_records hR rfl rfl rfl (by simp) (by simp [Busy.about, hr]) ?_
    rintro _ _ _ ⟨⟩
    exact hR.readable _ _ _ rfl
  | turnAway =>
    exact same_records hR (by simp) (by simp) (by simp) (by simp) (by simp [Busy.about]) (by simp)
  | beginFill p hr hp =>
    refine same_records hR rfl rfl rfl (by simp) (by simp [Busy.about, hr]) ?_
    rintro _ _ _ ⟨⟩ r h
    exact Option.some.inj (hr.symm.trans h) ▸ hp
  | @lose _ _ _ c p r _ _ _ hr =>
    refine same_records hR rfl rfl rfl (by simp) ?_ ?_ <;>
      cases p <;> simp [Busy.about, broken, source, hr]
  | @leak _ _ _ c p r _ _ _ hr =>
    refine same_records hR rfl rfl rfl (by simp) ?_ ?_ <;>
      cases p <;> simp [Busy.about, broken, target, hr]
  | doom hr => exact same_records hR rfl rfl rfl (by simp) (by simp [Busy.about, hr]) (by simp)
  | link hr =>
    refine put_records hR rfl hr rfl (fun _ _ => rfl) (by simp) (fun h => ?_)
      (by simp [Busy.about]) ?_
    · exact phase_congr (phase_mono h (by simp)) (by simp) (by simp) (by simp)
    · rintro _ _ _ ⟨⟩
      exact ⟨⟨_, rfl⟩, fun _ h => by simpa using h⟩
  | unlink hr _ _ hbusy =>
    refine put_records hR rfl hr rfl (fun _ _ => rfl) (fun _ _ h => h) (fun h => ?_)
      (fun _ _ h => h) ?_
    · exact phase_congr h (by simp) (by simp) (by simp)
    · intro d q full hd
      exact ⟨⟨full, hd⟩, fun _ h => by simpa using h⟩
  | answered hr =>
    refine watcher_records hR hr rfl (Or.inr ⟨rfl, by simp⟩) fun _ => ?_
    rcases (hR.phase _ _ hr).ofOpen (hR.readable _ _ _ rfl _ hr) with hs | hs <;> rw [hs] <;> decide
  | requested hr =>
    split
    · rename_i hup
      exact watcher_records hR hr rfl (Or.inr ⟨rfl, by simp⟩) fun _ => hup
    · exact same_records hR rfl rfl rfl (by simp) (by simp [Busy.about]) (by simp)
  | restClient hr => exact watcher_records hR hr rfl (Or.inl rfl) (by simp [MaySet])
  | restUpstream hr => exact watcher_records hR hr rfl (Or.inl rfl) (by simp [MaySet])
  | @stopTimer w _ _ c =>
    obtain ⟨r,hr⟩ := Option.ne_none_iff_exists'.mp (hR.live c rfl)
    exact watcher_records hR hr rfl (Or.inl rfl) rfl
  | @stopUpcTimer w b _ _ _ c =>
    cases hr : w.conns.get c with
    | none =>
      have hloop : (w.setWatcher c .upcETimer false).loop = w.loop := by
        funext d k
        by_cases hd : d = c ∧ k = .upcETimer
        · simp [hd.1, hd.2, show w.loop c .upcETimer = false from hR.absent c hr _]
        · simp [hd]
      exact same_records hR rfl rfl hloop (fun _ h => h) hR.live hR.readable
    | some r => exact watcher_records hR hr rfl (Or.inl rfl) rfl
  | enqueue hr hs =>
    refine put_records hR rfl hr (by simp) (fun _ _ => by simp) (by simp)
      (fun h => phase_enqueued h hs) (by simp [Busy.about]) ?_
    rintro _ _ _ ⟨⟩
    exact ⟨⟨_, rfl⟩, fun _ _ => by simp [Readable]⟩
  | noSocket leaked _ hi hr =>
    refine put_records hR (abandoned_conns ..) hr (by simp) (fun _ _ => by simp) (fun _ _ h => h)
      (fun h => by simpa using phase_abandoned h hi.1) (fun _ _ h => h) ?_
    intro d p full hd
    exact ⟨⟨full, hd⟩, fun _ h => by cases p <;> exact h⟩
  | @promote _ w b fs is c r i fd hs hi hr =>
    obtain ⟨hw,ho⟩ := scheduled_waiting hq rfl hs hr
    refine put_records hR (promoted_conns ..) hr (by simp) ?_ (fun _ _ h => h)
      (fun h => phase_promoted h hw ho hi.1 fd (by simp)) (fun _ _ h => h) ?_
    · intro d hd
      rw [(promoted_frame ..).2.1]
      exact dialled_other w c i fd hd
    · intro d p full hd
      refine ⟨⟨full, hd⟩, fun _ _ => ?_⟩
      cases p <;> simp [Readable, XtpConn.isOpen, dialledConn]
  | @refuse _ w b fs is c r i fd hs hi hr =>
    obtain ⟨hw,ho⟩ := scheduled_waiting hq rfl hs hr
    refine put_records hR (closedUpstream_conns ..) hr (by simp) ?_ (fun _ _ h => h)
      (fun h => phase_refused h hw hi.1 fd ?_) (fun _ _ h => h) ?_
    · intro d hd
      rw [closedUpstream_other _ _ _ hd, dialled_other _ _ _ _ hd]
    · intro k
      cases k <;> simp [dialledConn, hw]
    · intro d p full hd
      refine ⟨⟨full, hd⟩, fun _ h => ?_⟩
      cases p
      · simpa [Readable, dialledConn] using h
      · rw [Readable, ho] at h
        cases h
  | connect _ hr hup =>
    refine put_records hR (connected_conns ..) hr rfl ?_ (by simp)
      (fun h => phase_connected h hup _ (by simp)) (by simp [Busy.about]) (by simp)
    intro d hd
    funext k
    simp [hd]
  | @closeUpstream w busy fs is c r hr hup hbusy =>
    have hon : r.upcStatus ≠ .none := by
      rcases isOpen_iff.mp hup with h | h <;> rw [h] <;> decide
    refine put_records hR (closedUpstream_conns ..) hr (by simp)
      (fun d hd => closedUpstream_other w c r hd) ?_ (fun h => ?_) ?_ ?_
    · intro d _ hd
      simp [show busy = _ from hd, afterClosing]
    · refine phase_mono (phase_closedUpstream h hon (by simp)) (fun hb => ?_)
      simp [show busy = _ from hb, afterClosing]
    · intro d hne hd
      rcases hbusy with rfl | ⟨p,rfl⟩ | rfl
      · exact hd
      · cases hd
      · exact hd
    · intro d p full hd
      rcases hbusy with rfl | ⟨q,rfl⟩ | rfl <;> cases hd
  | @timeOut w _ _ c r hr hs =>
    exact put_records hR rfl hr rfl (fun _ _ => rfl) (by simp) (fun h => phase_timedOut h hs)
      (fun d hne hd => absurd (Option.some.inj hd).symm hne) (by simp)
  | @closeClient w _ _ c r hr hs ho =>
    refine put_records hR (closedClient_conns ..) hr (by simp) ?_ (fun _ _ h => h)
      (fun h => phase_closedClient h ho (by simp)) (fun _ _ h => h) (by simp)
    intro d hd
    funext k
    simp [hd]
  | @settle w _ _ c r hr hs _ htimer =>
    refine put_records hR (Store.set_self hr).symm hr rfl (fun _ _ => rfl) ?_ (fun h => ?_)
      (by simp [Busy.about]) (by simp)
    · intro d hne hd
      cases hd
      exact absurd rfl hne
    · obtain ⟨h1,h2,h3,h4,h5,h6,h7,h8,h9,h10,h11,h12,h13⟩ := h
      exact ⟨Or.inr (Or.inr (Or.inr (Or.inl hs))), h2, h3, h4, h5, h6, h7, h8, h9, h10, h11, h12,
        Or.inl htimer⟩
  | free hr hs hup _ _ htimer => exact free_records hR hr hs hup htimer rfl
  | welcome => exact welcome_records hR _ rfl

end TcpFunnel.RecordInvariant
