import TcpFunnel.RecordInvariant

/-!
# The descriptors under every action

A descriptor that is opened was not open before, and one that is closed
belongs to the connection whose record changes. So the other connections keep
theirs.
-/

set_option autoImplicit false

namespace TcpFunnel.DescriptorInvariant
open TcpFunnel.BufferPool TcpFunnel.Connection TcpFunnel.Actions TcpFunnel.Invariants
open TcpFunnel.QueueInvariant TcpFunnel.RecordInvariant

variable {o : Option ConnId} {s t : Stage}

/-- One record has changed, and only descriptors of its own or unused ones. -/
theorem changed_descriptors (hD : Descriptors s) {c : ConnId} {r' : XtpConn}
    (hchange : ∀ d rd, t.w.conns.get d = some rd →
      d = c ∧ rd = r' ∨ d ≠ c ∧ s.w.conns.get d = some rd)
    (hfds : ∀ g k, s.w.fds g = some k → k.owner ≠ c → t.w.fds g = some k)
    (hnonneg : ∀ g k, t.w.fds g = some k → 0 ≤ g)
    (hclient : r'.status ≠ .close → t.w.fds r'.fd = some ⟨c, .client⟩ ∨ r'.fd = -1)
    (hupstream : r'.isOpen → t.w.fds r'.upcFd = some ⟨c, .upstream⟩) : Descriptors t where
  nonneg := hnonneg
  client := by
    intro d r hr hs
    rcases hchange d r hr with ⟨rfl,rfl⟩ | ⟨hne,hr⟩
    · exact hclient hs
    · exact (hD.client d r hr hs).imp_left fun h => hfds _ _ h hne
  upstream := by
    intro d r hr ho
    rcases hchange d r hr with ⟨rfl,rfl⟩ | ⟨hne,hr⟩
    · exact hupstream ho
    · exact hfds _ _ (hD.upstream d r hr ho) hne

theorem put_descriptors (hD : Descriptors s) {c : ConnId} {r' : XtpConn}
    (hput : t.w.conns = s.w.conns.set c r')
    (hfds : ∀ g k, s.w.fds g = some k → k.owner ≠ c → t.w.fds g = some k)
    (hnonneg : ∀ g k, t.w.fds g = some k → 0 ≤ g)
    (hclient : r'.status ≠ .close → t.w.fds r'.fd = some ⟨c, .client⟩ ∨ r'.fd = -1)
    (hupstream : r'.isOpen → t.w.fds r'.upcFd = some ⟨c, .upstream⟩) : Descriptors t :=
  changed_descriptors hD (fun d rd hd => by rwa [hput, Store.set_some] at hd) hfds hnonneg hclient
    hupstream

theorem same_descriptors (hD : Descriptors s) (hfds : t.w.fds = s.w.fds)
    (hconn : ∀ c r', t.w.conns.get c = some r' → ∃ r, s.w.conns.get c = some r ∧
      r'.fd = r.fd ∧ r'.upcFd = r.upcFd ∧ (r'.status ≠ .close → r.status ≠ .close) ∧
      (r'.isOpen → r.isOpen)) : Descriptors t where
  nonneg := by rw [hfds]; exact hD.nonneg
  client := by
    intro c r' hr hs
    obtain ⟨r,h0,hf,-,hst,-⟩ := hconn c r' hr
    rw [hfds, hf]
    exact hD.client c r h0 (hst hs)
  upstream := by
    intro c r' hr ho
    obtain ⟨r,h0,-,hf,-,hop⟩ := hconn c r' hr
    rw [hfds, hf]
    exact hD.upstream c r h0 (hop ho)

theorem same_descriptors_put (hD : Descriptors s) {c : ConnId} {r r' : XtpConn}
    (hr : s.w.conns.get c = some r) (hput : t.w.conns = s.w.conns.set c r')
    (hfds : t.w.fds = s.w.fds) (hfd : r'.fd = r.fd ∧ r'.upcFd = r.upcFd)
    (hs : r'.status ≠ .close → r.status ≠ .close) (ho : r'.isOpen → r.isOpen) : Descriptors t := by
  refine same_descriptors hD hfds fun d rd hd => ?_
  rw [hput, Store.set_some] at hd
  rcases hd with ⟨rfl,rfl⟩ | ⟨-,hd⟩
  · exact ⟨r, hr, hfd.1, hfd.2, hs, ho⟩
  · exact ⟨rd, hd, rfl, rfl, id, id⟩

section changes

variable {fds fds' : ℤ → Option Sock} {fd : ℤ} {j : Sock}

theorem opened_keeps (hfd : fds fd = none)
    (h : ∀ g, fds' g = if g = fd then some j else fds g) (g : ℤ) (k : Sock)
    (hk : fds g = some k) : fds' g = some k := by
  have hne : g ≠ fd := by
    rintro rfl
    rw [hfd] at hk
    cases hk
  rw [h, if_neg hne, hk]

theorem opened_nonneg (hfd : 0 ≤ fd) (h : ∀ g, fds' g = if g = fd then some j else fds g)
    (hn : ∀ g k, fds g = some k → 0 ≤ g) (g : ℤ) (k : Sock) (hk : fds' g = some k) : 0 ≤ g := by
  rw [h] at hk
  by_cases hg : g = fd
  · rw [hg]; exact hfd
  · rw [if_neg hg] at hk
    exact hn g k hk

theorem closed_keeps (h : ∀ g, fds' g = if g = fd then none else fds g) (g : ℤ) (k : Sock)
    (hk : fds g = some k) (hne : g ≠ fd) : fds' g = some k := by
  rw [h, if_neg hne, hk]

theorem closed_nonneg (h : ∀ g, fds' g = if g = fd then none else fds g)
    (hn : ∀ g k, fds g = some k → 0 ≤ g) (g : ℤ) (k : Sock) (hk : fds' g = some k) : 0 ≤ g := by
  rw [h] at hk
  by_cases hg : g = fd
  · rw [if_pos hg] at hk
    cases hk
  · rw [if_neg hg] at hk
    exact hn g k hk

end changes

theorem act_descriptors (h : Act o s t) (hD : Descriptors s) (hR : Records s) (hq : Queue s) :
    Descriptors t := by
  have same : ∀ c r', s.w.conns.get c = some r' → ∃ r, s.w.conns.get c = some r ∧
      r'.fd = r.fd ∧ r'.upcFd = r.upcFd ∧ (r'.status ≠ .close → r.status ≠ .close) ∧
      (r'.isOpen → r.isOpen) := fun c r h => ⟨r, h, rfl, rfl, id, id⟩
  cases h with
  | answers | mallocs | countMax | addBlock | stopUpcTimer | pass | beginFill | fill | lose
  | answered | drain | leak | restClient | restUpstream | doom | stopTimer | settle =>
    exact same_descriptors hD rfl same
  | requested => split <;> exact same_descriptors hD rfl same
  | link hr =>
    exact same_descriptors_put hD hr rfl rfl (by simp) (by simp) (by simp)
  | unlink hr =>
    exact same_descriptors_put hD hr rfl rfl (by simp) (by simp) (by simp)
  | enqueue hr hs =>
    exact same_descriptors_put hD hr rfl rfl ⟨rfl, rfl⟩ (by simp [hs]) id
  | timeOut hr hs =>
    exact same_descriptors_put hD hr rfl rfl ⟨rfl, rfl⟩ (fun _ => hs) id
  | connect _ hr hup =>
    exact same_descriptors_put hD hr rfl rfl ⟨rfl, rfl⟩ id (fun _ => isOpen_iff.mpr (Or.inl hup))
  | free =>
    exact same_descriptors hD rfl fun d r hr => same d r ((Store.free_some ..).mp hr).2
  | @noSocket _ w b fs is c r i leaked hs hi hr hfd =>
    cases leaked with
    | none =>
      exact same_descriptors_put hD hr (abandoned_conns ..) (by funext g; simp) ⟨rfl, rfl⟩ id id
    | some fd =>
      have h : ∀ g, (abandoned w c r i (some fd)).fds g =
          if g = fd then some ⟨c, .upstream⟩ else w.fds g := by simp [eq_comm]
      have hk := opened_keeps (hfd fd rfl).2 h
      exact put_descriptors hD (abandoned_conns ..) (fun g k hg _ => hk g k hg)
        (opened_nonneg (hfd fd rfl).1 h hD.nonneg)
        (fun hc => (hD.client c r hr hc).imp_left (hk _ _))
        (fun ho => hk _ _ (hD.upstream c r hr ho))
  | @promote _ w b fs is c r i fd hs hi hr hfd =>
    have h : ∀ g, (promoted w c r i fd).fds g =
        if g = fd then some ⟨c, .upstream⟩ else w.fds g := by simp
    have hk := opened_keeps hfd.2 h
    have hw := (scheduled_waiting hq rfl hs hr).1
    refine put_descriptors hD (promoted_conns ..) (fun g k hg _ => hk g k hg)
      (opened_nonneg hfd.1 h hD.nonneg) (fun _ => ?_) (fun _ => ?_)
    · exact (hD.client c r hr (by rw [hw]; decide)).imp_left (hk _ _)
    · simp [dialledConn]
  | @refuse _ w b fs is c r i fd hs hi hr hfd =>
    have h : (closedUpstream (dialled w c i fd) c (dialledConn r i fd)).fds = w.fds := by
      funext g
      by_cases hg : g = fd
      · simp [dialledConn, hg, hfd.2]
      · simp [dialledConn, hg]
    refine put_descriptors hD (closedUpstream_conns ..) (fun g k hg _ => by rw [h]; exact hg)
      (by rw [h]; exact hD.nonneg) (fun hc => ?_) (by simp [XtpConn.isOpen])
    rw [h]
    exact hD.client c r hr hc
  | @closeUpstream w busy fs is c r hr hup hbusy =>
    have h : ∀ g, (closedUpstream w c r).fds g = if g = r.upcFd then none else w.fds g := by simp
    have hu := hD.upstream c r hr hup
    refine put_descriptors hD (closedUpstream_conns ..) (fun g k hg hne => ?_)
      (closed_nonneg h hD.nonneg) (fun hc => ?_) (by simp [XtpConn.isOpen])
    · refine closed_keeps h g k hg ?_
      rintro rfl
      exact hne (Option.some.inj (hg.symm.trans hu) ▸ rfl)
    · refine (hD.client c r hr hc).imp_left fun hf => closed_keeps h _ _ hf fun he => ?_
      have := Option.some.inj ((he ▸ hf : w.fds r.upcFd = _).symm.trans hu)
      simp at this
  | @closeClient w fs is c r hr hs ho =>
    have h : ∀ g, (closedClient w c r).fds g = if g = r.fd then none else w.fds g := by simp
    refine put_descriptors hD (closedClient_conns ..) (fun g k hg hne => ?_)
      (closed_nonneg h hD.nonneg) (by simp) (fun hop => ?_)
    · refine closed_keeps h g k hg ?_
      rintro rfl
      rcases hD.client c r hr hs with hf | hf
      · exact hne (Option.some.inj (hg.symm.trans hf) ▸ rfl)
      · exact absurd (hD.nonneg _ _ hg) (by simp [hf])
    · rw [show r.isOpen = true from hop] at ho
      cases ho
  | @welcome w fs is fd hfd hmax =>
    have hput : ∀ d rd, (admitted (accepted w fd) fd).conns.get d = some rd →
        d = w.conns.next ∧ rd = Access.newConn fd w.ln.timeout ∨
        d ≠ w.conns.next ∧ w.conns.get d = some rd := by
      intro d rd hd
      simpa only [admitted_conns, accepted_frame, Store.push_some] using hd
    rcases hfd with hfd | rfl
    · have hne : fd ≠ -1 := by rintro rfl; exact absurd hfd.1 (by decide)
      have h : ∀ g, (admitted (accepted w fd) fd).fds g =
          if g = fd then some ⟨w.conns.next, .client⟩ else w.fds g := by simp [hne]
      refine changed_descriptors hD hput (fun g k hg _ => opened_keeps hfd.2 h g k hg)
        (opened_nonneg hfd.1 h hD.nonneg) (fun _ => Or.inl ?_)
        (by simp [Access.newConn, XtpConn.isOpen])
      rw [h, Access.newConn, if_pos rfl]
    · exact changed_descriptors hD hput (fun g k hg _ => by simpa using hg)
        (by simpa using hD.nonneg)
        (fun _ => Or.inr rfl) (by simp [Access.newConn, XtpConn.isOpen])
  | @turnAway w fs is fd hfd =>
    have hfree : w.fds fd = none := by
      rcases hfd with hfd | rfl
      · exact hfd.2
      · cases hm : w.fds (-1) with
        | none => rfl
        | some k => exact absurd (hD.nonneg _ k hm) (by decide)
    have h : ((accepted w fd).closeFd fd).fds = w.fds := by
      funext g
      by_cases hg : g = fd
      · simp [hg, hfree]
      · simp [hg]
    exact same_descriptors hD h (by simpa using same)

end TcpFunnel.DescriptorInvariant
