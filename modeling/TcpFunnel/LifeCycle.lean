import TcpFunnel.PipeFlow
import TcpFunnel.Runs

/-!
# The life of a connection

Any two states of a run are compared. A connection goes through its phases in
one direction, but for an upstream that has been refused while its client waits.
Its name is not used again, nothing is moved for it any more once it has ended,
and the clients in the queue do not overtake each other.
-/

set_option autoImplicit false

namespace TcpFunnel.LifeCycle
open TcpFunnel.BufferPool TcpFunnel.Connection TcpFunnel.EventLoop TcpFunnel.Reachability
open TcpFunnel.Actions TcpFunnel.Invariants TcpFunnel.QueueInvariant TcpFunnel.RecordInvariant
open TcpFunnel.StageInvariant TcpFunnel.StepSimulation TcpFunnel.PipeFlow TcpFunnel.Runs

def rank : ConnPhase → ℕ
  | .none => 0
  | .waiting => 1
  | .connect => 2
  | .working => 3
  | .timeout => 4
  | .close => 5
  | .error => 6

/-- Neither side goes back, but that the upstream of a client that has been
refused while it waits starts once more. -/
structure Aged (r r' : XtpConn) : Prop where
  fd : r'.fd = r.fd
  status : rank r.status ≤ rank r'.status
  upcStatus : rank r.upcStatus ≤ rank r'.upcStatus ∨ r.status = .waiting ∧ r.upcStatus = .close

def Ended (w : World) (c : ConnId) : Prop :=
  c < w.conns.next ∧ ∀ r, w.conns.get c = some r → r.status = .close

def Unasked (w : World) (c : ConnId) : Prop :=
  w.conns.next ≤ c ∨ ∃ r, w.conns.get c = some r ∧ r.status = .none

/-- What has become of the queue while the milestones `since` were passed.
Others have entered it at its end, whoever is gone has been promoted or closed,
and whoever has been promoted stood in front of all that are still there. -/
structure Ordered (w w' : World) (since : List Milestone) : Prop where
  logged : w'.log = w.log ++ since
  line : ∃ kept new, w'.ln.cqWaiting = kept ++ new ∧ List.Sublist kept w.ln.cqWaiting ∧
    ∀ c ∈ new, Unasked w c
  left : ∀ c ∈ w.ln.cqWaiting, c ∉ w'.ln.cqWaiting → .promoted c ∈ since ∨ .closed c ∈ since
  turn : ∀ c ∈ w.ln.cqWaiting, c ∈ w'.ln.cqWaiting → ∀ d, .promoted d ∈ since →
    List.Sublist [d, c] w.ln.cqWaiting

structure Onward (w w' : World) : Prop where
  named : w.conns.next ≤ w'.conns.next
  gone : ∀ c < w.conns.next, w.conns.get c = none → w'.conns.get c = none
  aged : ∀ c r, w.conns.get c = some r → ∀ r', w'.conns.get c = some r' → Aged r r'
  ended : ∀ c, Ended w c → Ended w' c ∧
    ∀ p, arrived w' c p = arrived w c p ∧ departed w' c p = departed w c p
  ordered : ∃ since, Ordered w w' since

variable {o : Option ConnId} {s t : Stage} {w w' w'' : World} {c d : ConnId} {p : Pipe}
variable {r r' r'' : XtpConn}

theorem rank_injective : Function.Injective rank := by
  intro p q h
  cases p <;> cases q <;> first | rfl | cases h

def Early (r : XtpConn) : Prop :=
  rank r.status ≤ rank .waiting → r.upcStatus = .none ∨ r.status = .waiting ∧ r.upcStatus = .close

theorem phase_early {busy : Busy} {peers : ℕ} {on : Watcher → Bool}
    (h : Phase busy peers c r on) : Early r := by
  intro hle
  have hnot : r.isOpen = false := by
    by_contra ho
    rcases h.ofOpen (by simpa using ho) with hs | hs <;> rw [hs] at hle
    · exact absurd hle (by decide)
    · exact absurd hle (by decide)
  rcases h.status with hs | hs | hs | hs | ⟨hs,-⟩
  · exact .inl (h.ofNone hs)
  · rcases h.upcStatus with hu | hu | hu | hu
    · exact .inl hu
    · cases hnot.symm.trans (isOpen_iff.mpr (.inl hu))
    · cases hnot.symm.trans (isOpen_iff.mpr (.inr hu))
    · exact .inr ⟨hs, hu⟩
  · rw [hs] at hle
    exact absurd hle (by decide)
  · rw [hs] at hle
    exact absurd hle (by decide)
  · rw [hs] at hle
    exact absurd hle (by decide)

theorem aged_refl (r : XtpConn) : Aged r r := ⟨rfl, Nat.le_refl _, .inl (Nat.le_refl _)⟩

theorem Aged.trans (he : Early r) (h : Aged r r') (h' : Aged r' r'') : Aged r r'' where
  fd := h'.fd.trans h.fd
  status := h.status.trans h'.status
  upcStatus := by
    rcases h'.upcStatus with hle' | ⟨hs',-⟩
    · exact h.upcStatus.imp_left fun hle => hle.trans hle'
    · rcases he (hs' ▸ h.status) with hu | hu
      · rw [hu]
        exact .inl (Nat.zero_le _)
      · exact .inr hu

def Asked (w : World) : Prop := ∀ c ∈ w.ln.cqWaiting, ¬ Unasked w c

theorem idle_asked (hI : Inv s) (hbusy : s.busy = .idle) : Asked s.w := by
  rintro c hc (hle | ⟨r,hr,hs⟩)
  · exact absurd (hI.queue.lt c hc) (Nat.not_lt.mpr hle)
  · rcases (hI.queue.mem c hc r hr).1 with hw | hclosing
    · cases hw.symm.trans hs
    · cases hbusy.symm.trans hclosing

theorem ordered_refl (w : World) : Ordered w w [] where
  logged := by simp
  line := ⟨w.ln.cqWaiting, [], by simp, List.Sublist.refl _, by simp⟩
  left := fun c hc hn => absurd hc hn
  turn := by simp

theorem onward_refl (w : World) : Onward w w where
  named := Nat.le_refl _
  gone := fun _ _ h => h
  aged := by
    intro c r hr r' hr'
    cases hr.symm.trans hr'
    exact aged_refl r
  ended := fun _ h => ⟨h, fun _ => ⟨rfl, rfl⟩⟩
  ordered := ⟨[], ordered_refl w⟩

theorem Onward.unasked (h : Onward w w') (hu : Unasked w' c) : Unasked w c := by
  rcases hu with hle | ⟨r',hr',hs'⟩
  · exact .inl (h.named.trans hle)
  · cases hr : w.conns.get c with
    | none =>
      rcases Nat.lt_or_ge c w.conns.next with hlt | hge
      · cases hr'.symm.trans (h.gone c hlt hr)
      · exact .inl hge
    | some r =>
      have hle := (h.aged c r hr r' hr').status
      rw [hs'] at hle
      exact .inr ⟨r, hr, rank_injective (Nat.le_zero.mp hle)⟩

/-- A client that waits on has been in the queue all along, behind the same
clients. -/
theorem Ordered.trans {xs ys : List Milestone} (ha : Asked w) (h : Onward w w')
    (hx : Ordered w w' xs) (hy : Ordered w' w'' ys) : Ordered w w'' (xs ++ ys) := by
  obtain ⟨kept,new,hq,hkept,hnew⟩ := hx.line
  obtain ⟨kept',new',hq',hkept',hnew'⟩ := hy.line
  have hstayed : ∀ c ∈ w.ln.cqWaiting, c ∈ w''.ln.cqWaiting → c ∈ w'.ln.cqWaiting := by
    intro c hc hc''
    rw [hq'] at hc''
    rcases List.mem_append.mp hc'' with hc'' | hc''
    · exact hkept'.subset hc''
    · exact absurd (h.unasked (hnew' c hc'')) (ha c hc)
  constructor
  · rw [hy.logged, hx.logged, List.append_assoc]
  · rw [hq] at hkept'
    obtain ⟨front,back,rfl,hfront,hback⟩ := List.sublist_append_iff.mp hkept'
    refine ⟨front, back ++ new', by simp [hq'], hfront.trans hkept, fun c hc => ?_⟩
    rcases List.mem_append.mp hc with hc | hc
    · exact hnew c (hback.subset hc)
    · exact h.unasked (hnew' c hc)
  · intro c hc hgone
    by_cases hc' : c ∈ w'.ln.cqWaiting
    · exact (hy.left c hc' hgone).imp (List.mem_append_right _) (List.mem_append_right _)
    · exact (hx.left c hc hc').imp (List.mem_append_left _) (List.mem_append_left _)
  · intro c hc hc'' d hd
    have hc' := hstayed c hc hc''
    rcases List.mem_append.mp hd with hd | hd
    · exact hx.turn c hc hc' d hd
    · have hbefore := hy.turn c hc' hc'' d hd
      rw [hq] at hbefore
      obtain ⟨front,back,hsplit,hfront,hback⟩ := List.sublist_append_iff.mp hbefore
      have hnil : back = [] := by
        by_contra hne
        have hlast : c ∈ back := by
          have hend : (front ++ back).getLast? = some c := by
            rw [← hsplit]
            rfl
          rw [List.getLast?_append_of_ne_nil _ hne] at hend
          exact List.mem_of_getLast? hend
        exact ha c hc (hnew c (hback.subset hlast))
      rw [hnil, List.append_nil] at hsplit
      exact (hsplit ▸ hfront).trans hkept

theorem Onward.trans (hw : w.conns.WellFormed) (ha : Asked w)
    (he : ∀ c r, w.conns.get c = some r → Early r) (h : Onward w w') (h' : Onward w' w'') :
    Onward w w'' where
  named := h.named.trans h'.named
  gone := fun c hlt hr => h'.gone c (hlt.trans_le h.named) (h.gone c hlt hr)
  aged := by
    intro c r hr r'' hr''
    have hlt : c < w'.conns.next := (hw.lt hr).trans_le h.named
    cases hr' : w'.conns.get c with
    | none => cases hr''.symm.trans (h'.gone c hlt hr')
    | some r' => exact (h.aged c r hr r' hr').trans (he c r hr) (h'.aged c r' hr' r'' hr'')
  ended := by
    intro c he
    obtain ⟨he',hsame⟩ := h.ended c he
    obtain ⟨he'',hsame'⟩ := h'.ended c he'
    exact ⟨he'', fun p => ⟨(hsame' p).1.trans (hsame p).1, (hsame' p).2.trans (hsame p).2⟩⟩
  ordered := by
    obtain ⟨xs,hx⟩ := h.ordered
    obtain ⟨ys,hy⟩ := h'.ordered
    exact ⟨xs ++ ys, hx.trans ha h hy⟩

theorem ended_quiet (hI : Inv s) (he : Ended s.w c) (h : Flow c p s t) :
    arrived t.w c p = arrived s.w c p ∧ departed t.w c p = departed s.w c p := by
  have hclosed : ∀ r, s.w.conns.get c = some r → r.isOpen = false := by
    intro r hr
    by_contra ho
    rcases (hI.records.phase c r hr).ofOpen (by simpa using ho) with h | h
    · cases h.symm.trans (he.2 r hr)
    · cases h.symm.trans (he.2 r hr)
  have hfilling : ∀ full, s.busy ≠ .filling c p full := by
    intro full hbusy
    have hlive : s.w.conns.get c ≠ none := hI.records.live c (by rw [hbusy]; rfl)
    obtain ⟨r,hr⟩ := Option.ne_none_iff_exists'.mp hlive
    have hreadable := hI.records.readable c p full hbusy r hr
    cases p with
    | pipe1 => exact hreadable (he.2 r hr)
    | pipe2 => cases (hclosed r hr).symm.trans hreadable
  have hwritable : ∀ r, s.w.conns.get c = some r → ¬ Writable r p := by
    intro r hr hp
    cases p with
    | pipe1 => cases (hclosed r hr).symm.trans (isOpen_iff.mpr (.inr hp))
    | pipe2 => exact hp (he.2 r hr)
  cases h with
  | quiet hin hout => exact ⟨hin, hout⟩
  | filled xs hbusy => exact absurd hbusy (hfilling _)
  | lost xs hbusy => exact absurd hbusy (hfilling _)
  | drained xs r hr hp => exact absurd hp (hwritable r hr)
  | leaked xs ys r hr hp => exact absurd hp (hwritable r hr)
  | dropped xs hbusy hnext hin hout => exact ⟨hin, hout⟩

section phases

variable {busy : Busy} {peers : ℕ} {on : Watcher → Bool} (h : Phase busy peers c r on)
include h

theorem status_le_close : rank r.status ≤ rank .close := by
  rcases h.status with hs | hs | hs | hs | ⟨hs,-⟩ <;> rw [hs] <;> decide

theorem upcStatus_le_close : rank r.upcStatus ≤ rank .close := by
  rcases h.upcStatus with hu | hu | hu | hu <;> rw [hu] <;> decide

end phases

theorem onward_act (hI : Inv s) (ha : Act o s t) (hnamed : s.w.conns.next ≤ t.w.conns.next)
    (hgone : ∀ c < s.w.conns.next, s.w.conns.get c = none → t.w.conns.get c = none)
    (haged : ∀ c r, s.w.conns.get c = some r → ∀ r', t.w.conns.get c = some r' → Aged r r')
    (hordered : ∃ since, Ordered s.w t.w since) : Onward s.w t.w where
  named := hnamed
  gone := hgone
  aged := haged
  ended := by
    intro c he
    refine ⟨⟨he.1.trans_le hnamed, fun r' hr' => ?_⟩, fun p =>
      ended_quiet hI he (act_flow ha hI c p)⟩
    cases hr : s.w.conns.get c with
    | none => cases hr'.symm.trans (hgone c he.1 hr)
    | some r =>
      have hfirst := (haged c r hr r' hr').status
      have hlast := status_le_close ((act_inv ha hI).records.phase c r' hr')
      rw [he.2 r hr] at hfirst
      exact rank_injective (Nat.le_antisymm hlast hfirst)
  ordered := hordered

theorem ordered_same (since : List Milestone) (hcq : t.w.ln.cqWaiting = s.w.ln.cqWaiting)
    (hlog : t.w.log = s.w.log ++ since) (hnone : ∀ d, .promoted d ∉ since) :
    ∃ since, Ordered s.w t.w since :=
  ⟨since, hlog, ⟨s.w.ln.cqWaiting, [], by simpa using hcq, List.Sublist.refl _, by simp⟩,
    fun _ hc hn => absurd (hcq ▸ hc) hn, fun _ _ _ d hd => absurd hd (hnone d)⟩

theorem ordered_quiet (hcq : t.w.ln.cqWaiting = s.w.ln.cqWaiting) (hlog : t.w.log = s.w.log) :
    ∃ since, Ordered s.w t.w since :=
  ordered_same [] hcq (by simpa using hlog) (by simp)

theorem ordered_enqueued (hcq : t.w.ln.cqWaiting = s.w.ln.cqWaiting ++ [d])
    (hlog : t.w.log = s.w.log ++ [.inserted d]) (hnew : Unasked s.w d) :
    ∃ since, Ordered s.w t.w since := by
  refine ⟨_, hlog, ⟨s.w.ln.cqWaiting, [d], hcq, List.Sublist.refl _, by simpa using hnew⟩,
    fun c hc hn => ?_, by simp⟩
  rw [hcq] at hn
  exact absurd (List.mem_append_left _ hc) hn

theorem ordered_promoted {rest : List ConnId} (hhead : s.w.ln.cqWaiting = d::rest)
    (hcq : t.w.ln.cqWaiting = rest) (hlog : t.w.log = s.w.log ++ [.promoted d]) :
    ∃ since, Ordered s.w t.w since := by
  refine ⟨_, hlog, ⟨rest, [], by simpa using hcq, ?_, by simp⟩, fun c hc hn => ?_,
    fun c hc hc' d' hd' => ?_⟩
  · rw [hhead]
    exact List.sublist_cons_self _ _
  · rw [hhead] at hc
    rw [hcq] at hn
    rw [(List.mem_cons.mp hc).resolve_right hn]
    exact .inl (List.mem_singleton.mpr rfl)
  · cases List.mem_singleton.mp hd'
    rw [hhead, List.cons_sublist_cons, List.singleton_sublist]
    rwa [hcq] at hc'

theorem ordered_closed (d : ConnId) (hcq : t.w.ln.cqWaiting = s.w.ln.cqWaiting.erase d)
    (hlog : t.w.log = s.w.log ++ [.closed d]) : ∃ since, Ordered s.w t.w since := by
  refine ⟨_, hlog, ⟨s.w.ln.cqWaiting.erase d, [], by simpa using hcq, List.erase_sublist, by simp⟩,
    fun c hc hn => ?_, by simp⟩
  have hcd : c = d := by
    by_contra hne
    rw [hcq] at hn
    exact hn ((List.mem_erase_of_ne hne).mpr hc)
  rw [hcd]
  exact .inr (List.mem_singleton.mpr rfl)

theorem onward_same (hI : Inv s) (ha : Act o s t) (hconns : t.w.conns = s.w.conns)
    (hcq : t.w.ln.cqWaiting = s.w.ln.cqWaiting) (hlog : t.w.log = s.w.log) :
    Onward s.w t.w := by
  apply onward_act hI ha (by rw [hconns]) _ _ (ordered_quiet hcq hlog)
  · intro c _ hr
    rw [hconns]
    exact hr
  · intro c r hr r' hr'
    rw [hconns] at hr'
    cases hr.symm.trans hr'
    exact aged_refl r

theorem onward_put (hI : Inv s) (ha : Act o s t) (hr : s.w.conns.get d = some r)
    (hput : t.w.conns = s.w.conns.set d r') (haged : Aged r r')
    (hordered : ∃ since, Ordered s.w t.w since) : Onward s.w t.w := by
  apply onward_act hI ha (by rw [hput]; rfl) _ _ hordered
  · intro c _ hc
    have hcd : c ≠ d := by
      rintro rfl
      cases hr.symm.trans hc
    rw [hput, Store.set_get, if_neg hcd]
    exact hc
  · intro c rc hrc rc' hrc'
    rw [hput, Store.set_some] at hrc'
    rcases hrc' with ⟨rfl,rfl⟩ | ⟨-,hrc'⟩
    · cases hr.symm.trans hrc
      exact haged
    · cases hrc.symm.trans hrc'
      exact aged_refl rc

theorem aged_pipe (r : XtpConn) (p : Pipe) (bs : List BufId) : Aged r (r.setPipe p bs) := by
  cases p <;> exact ⟨rfl, Nat.le_refl _, .inl (Nat.le_refl _)⟩

theorem aged_closing (h : rank r.upcStatus ≤ rank .close) (hfd : r'.fd = r.fd)
    (hs : r'.status = r.status) (hu : r'.upcStatus = .close) : Aged r r' :=
  ⟨hfd, hs ▸ Nat.le_refl _, .inl (hu ▸ h)⟩

theorem act_onward (h : Act o s t) (hI : Inv s) : Onward s.w t.w := by
  have ha := h
  cases h with
  | requested =>
    apply onward_same hI ha
    · dsimp only
      split <;> rfl
    · dsimp only
      split <;> rfl
    · dsimp only
      split <;> rfl
  | @link w fs is c p full r b rest rb hr hb hrb hp =>
    exact onward_put hI ha hr rfl (aged_pipe r p _) (ordered_quiet (by simp) (by simp))
  | @unlink w busy fs is c p r b rb hr =>
    exact onward_put hI ha hr rfl (aged_pipe r p _) (ordered_quiet (by simp) (by simp))
  | @enqueue w fs is c r hr hs =>
    have hle : rank r.status ≤ rank .waiting := by
      rw [hs]
      decide
    exact onward_put hI ha hr rfl ⟨rfl, hle, .inl (Nat.le_refl _)⟩
      (ordered_enqueued (by simp) (by simp) (.inr ⟨r, hr, hs⟩))
  | noSocket leaked hs hi hr =>
    exact onward_put hI ha hr (abandoned_conns ..) ⟨rfl, Nat.le_refl _, .inl (Nat.le_refl _)⟩
      (ordered_quiet (by simp) (by simp))
  | @promote _ w b fs is c r i fd hs hi hr =>
    have hwaiting := (scheduled_waiting hI.queue rfl hs hr).1
    have hle : rank r.status ≤ rank .working := by
      rw [hwaiting]
      decide
    have hup : rank r.upcStatus ≤ rank .connect ∨ r.status = .waiting ∧ r.upcStatus = .close := by
      refine (phase_early (hI.records.phase _ _ hr) (by rw [hwaiting])).imp_left fun hu => ?_
      rw [hu]
      decide
    obtain ⟨rest,hrest⟩ : ∃ rest, w.ln.cqWaiting = c::rest := List.head?_eq_some_iff.mp hs.1
    exact onward_put hI ha hr (promoted_conns ..) ⟨rfl, hle, hup⟩
      (ordered_promoted hrest (by simp [hrest]) (by simp))
  | @refuse _ w b fs is c r i fd hs hi hr =>
    exact onward_put hI ha hr (closedUpstream_conns ..)
      (aged_closing (upcStatus_le_close (hI.records.phase _ _ hr)) rfl rfl rfl)
      (ordered_same [.released c] (by simp) (by simp) (by simp))
  | @connect w fs is c r timeout hr hup =>
    have hle : rank r.upcStatus ≤ rank .working := by
      rw [hup]
      decide
    exact onward_put hI ha hr (connected_conns ..) ⟨rfl, Nat.le_refl _, .inl hle⟩
      (ordered_quiet (by simp) (by simp))
  | @closeUpstream w busy fs is c r hr =>
    exact onward_put hI ha hr (closedUpstream_conns ..)
      (aged_closing (upcStatus_le_close (hI.records.phase _ _ hr)) rfl rfl rfl)
      (ordered_same [.released c] (by simp) (by simp) (by simp))
  | @timeOut w fs is c r hr hs =>
    have hle : rank r.status ≤ rank .timeout := by
      rcases (hI.records.phase _ _ hr).status with h | h | h | h | ⟨-,h⟩
      · rw [h]; decide
      · rw [h]; decide
      · rw [h]; decide
      · exact absurd h hs
      · cases h
    exact onward_put hI ha hr rfl ⟨rfl, hle, .inl (Nat.le_refl _)⟩ (ordered_quiet rfl rfl)
  | @closeClient w fs is c r hr hs =>
    refine onward_put hI ha hr (closedClient_conns ..)
      ⟨rfl, status_le_close (hI.records.phase _ _ hr), .inl (Nat.le_refl _)⟩ ?_
    by_cases hw : r.status = .waiting
    · exact ordered_closed c (by simp [hw]) (by simp)
    · exact ordered_same [.closed c] (by simp [hw]) (by simp) (by simp)
  | @free w fs is c r hr =>
    apply onward_act hI ha (Nat.le_refl _) _ _ (ordered_quiet rfl (by simp))
    · intro d _ hd
      have hd : w.conns.get d = none := hd
      by_cases hdc : d = c <;> simp [hdc, hd]
    · intro d rd hrd rd' hrd'
      cases hrd.symm.trans ((Store.free_some ..).mp hrd').2
      exact aged_refl rd
  | @welcome w fs is fd =>
    apply onward_act hI ha (by simp) _ _ (ordered_quiet (by simp) (by simp))
    · intro d hlt hd
      have hne : d ≠ w.conns.next := Nat.ne_of_lt hlt
      simpa [hne] using hd
    · intro d rd hrd rd' hrd'
      have hne : d ≠ w.conns.next := Nat.ne_of_lt (hI.records.wellFormed.lt hrd)
      have hsame : w.conns.get d = some rd' := by simpa [hne] using hrd'
      cases hrd.symm.trans hsame
      exact aged_refl rd
  | turnAway => exact onward_same hI ha (by simp) (by simp) (by simp)
  | _ => exact onward_same hI ha rfl rfl rfl

theorem path_onward (h : Acts o s t) (hI : Inv s) (hbusy : s.busy = .idle) :
    Onward s.w t.w := by
  induction h with
  | refl => exact onward_refl _
  | tail hp ha ih =>
    exact ih.trans hI.records.wellFormed (idle_asked hI hbusy)
      (fun c r hr => phase_early (hI.records.phase c r hr)) (act_onward ha (path_inv hp hI))

theorem step_onward {t : Turn} (h : Reachable proxy w) (hs : Step w t w') : Onward w w' := by
  have hI := reaches_inv h
  obtain ⟨u,hpath,rfl,-⟩ := returned_path hI hs.1 hs.2.1
  have hpath' := path_onward hpath (supply_inv t hI) rfl
  obtain ⟨since,hordered⟩ := hpath'.ordered
  exact ⟨hpath'.named, hpath'.gone, hpath'.aged, hpath'.ended,
    since, hordered.logged, hordered.line, hordered.left, hordered.turn⟩

/-- What is later in a run comes after what is earlier. -/
theorem life_goes_on (h : Reachable proxy w) (hl : Leads proxy w w') : Onward w w' :=
  Leads.relation Onward onward_refl
    (fun _ _ _ hs h1 h2 => h1.trans (reaches_inv hs).records.wellFormed
      (idle_asked (reaches_inv hs) rfl)
      (fun c r hr => phase_early ((reaches_inv hs).records.phase c r hr)) h2)
    (fun _ _ _ hs hstep => step_onward hs hstep) hl h

theorem life_goes_on_promoted : ∃ w w', w.ln.cqWaiting = [1] ∧ w'.ln.cqWaiting = [] ∧
    Onward w w' := by
  have hplay : (play (fun _ _ => true) (listener (singlePeer 1) (initialPool true)) oneWaits).any
      (fun w => decide (w.ln.cqWaiting = [1]) && (play (fun _ _ => true) w
        [ends 0 [.inProgress] [true, true]]).any fun w' => w'.ln.cqWaiting = []) = true := by
    decide +kernel
  obtain ⟨w,hr,hw⟩ := play_reaches _ (.start (singlePeer_start 1)) hplay
  obtain ⟨hq,hnext⟩ := Bool.and_eq_true_iff.mp hw
  obtain ⟨w',hstep,hq'⟩ := play_step hnext
  exact ⟨w, w', of_decide_eq_true hq, of_decide_eq_true hq',
    life_goes_on hr.reachable (.single ⟨_, hstep⟩)⟩

end TcpFunnel.LifeCycle
