import TcpFunnel.Admission
import TcpFunnel.Library.Census

/-!
# The slots

`working_num` counts the open upstreams as long as no `connect` fails at
once. While every promotion succeeds, a slot is only free when nobody waits
for it. Whatever happens, the slot of a promoted client is released once,
when its upstream closes.
-/

set_option autoImplicit false

namespace TcpFunnel.SlotCounting
open TcpFunnel.BufferPool TcpFunnel.Connection TcpFunnel.EventLoop TcpFunnel.Reachability
open TcpFunnel.Actions TcpFunnel.Invariants TcpFunnel.QueueInvariant TcpFunnel.RecordInvariant
open TcpFunnel.StageInvariant TcpFunnel.StepSimulation TcpFunnel.Runs TcpFunnel.Admission

variable {o : Option ConnId} {s t : Stage}

def openNum (w : World) : ℕ := (w.conns.names XtpConn.isOpen).card

/-- The counter is right and has kept to its limit, unless a `connect` failed. -/
def Counted (s : Stage) : Prop :=
  (∀ c, .refused c ∉ s.failures) →
    s.w.ln.workingNum = openNum s.w ∧ s.w.ln.workingNum ≤ max s.w.ln.srvcf.workingNumMax 0

theorem same_counted (hC : Counted s) (hopen : openNum t.w = openNum s.w)
    (hnum : t.w.ln.workingNum = s.w.ln.workingNum)
    (hmax : t.w.ln.srvcf.workingNumMax = s.w.ln.srvcf.workingNumMax)
    (hfail : s.failures ⊆ t.failures) : Counted t := by
  intro h
  rw [hopen, hnum, hmax]
  exact hC fun c hc => h c (hfail hc)

theorem counted_put (hC : Counted s) (hR : Records s) {c : ConnId} {r r' : XtpConn}
    (hr : s.w.conns.get c = some r) (hput : t.w.conns = s.w.conns.set c r')
    (ho : r'.isOpen = r.isOpen) (hnum : t.w.ln.workingNum = s.w.ln.workingNum)
    (hmax : t.w.ln.srvcf.workingNumMax = s.w.ln.srvcf.workingNumMax)
    (hfail : s.failures ⊆ t.failures) : Counted t := by
  refine same_counted hC ?_ hnum hmax hfail
  unfold openNum
  rw [hput, Store.names_set hR.wellFormed hr ho]

theorem act_counted (h : Act o s t) (hI : Inv s) (hC : Counted s) : Counted t := by
  have hR := hI.records
  have hfail := act_failures_subset h
  cases h with
  | answers | mallocs | countMax | addBlock | beginFill | fill | lose | answered | drain | leak
  | restClient | restUpstream | pass | doom | settle | stopTimer | stopUpcTimer =>
    exact same_counted hC rfl rfl rfl hfail
  | requested => split <;> exact same_counted hC rfl rfl rfl hfail
  | link hr => exact counted_put hC hR hr rfl (by simp) rfl rfl hfail
  | unlink hr => exact counted_put hC hR hr rfl (by simp) rfl rfl hfail
  | enqueue hr => exact counted_put hC hR hr rfl rfl rfl rfl hfail
  | timeOut hr => exact counted_put hC hR hr rfl rfl rfl rfl hfail
  | noSocket leaked hs hi hr =>
    exact counted_put hC hR hr (abandoned_conns ..) rfl (by simp) (by simp) hfail
  | @promote _ w b fs is c r i fd hs hi hr =>
    intro h
    obtain ⟨hnum,hle⟩ := hC h
    have hclosed := (scheduled_waiting hI.queue rfl hs hr).2
    have hopen : openNum (promoted w c r i fd) = openNum w+1 := by
      unfold openNum
      rw [promoted_conns]
      exact Store.card_names_insert hR.wellFormed hr hclosed rfl
    have hlt := hs.2
    simp only [promoted_ln, chosen_frame, hopen]
    simp only at hnum
    push_cast
    omega
  | @refuse _ w b fs is c =>
    intro h
    exact absurd (List.mem_append_right fs (List.mem_singleton_self _)) (h c)
  | connect timeout hr hup =>
    exact counted_put hC hR hr (connected_conns ..) (by simp [XtpConn.isOpen, hup]) (by simp)
      (by simp) hfail
  | @closeUpstream w busy fs is c r hr hup hbusy =>
    intro h
    obtain ⟨hnum,hle⟩ := hC h
    have hopen : openNum (closedUpstream w c r)+1 = openNum w := by
      unfold openNum
      rw [closedUpstream_conns]
      exact Store.card_names_erase hR.wellFormed hr hup (by simp [XtpConn.isOpen])
    simp only at hnum hle
    simp only [closedUpstream_frame]
    omega
  | closeClient hr =>
    exact counted_put hC hR hr (closedClient_conns ..) (by rfl) (by simp) (by simp) hfail
  | free hr hs hup =>
    refine same_counted hC ?_ rfl rfl hfail
    unfold openNum
    rw [freed_conns, Store.names_free hR.wellFormed hr hup]
  | @welcome w fs is fd =>
    refine same_counted hC ?_ (by simp) (by simp) hfail
    have hwf : (accepted w fd).conns.WellFormed := by simpa using hR.wellFormed
    unfold openNum
    rw [admitted_conns, Store.names_push hwf rfl, (accepted_frame ..).2.2.1]
  | turnAway =>
    refine same_counted hC ?_ (by simp) (by simp) hfail
    simp [openNum]

theorem start_counted {w : World} (h : Start w) : Counted (rest w) := by
  obtain ⟨srvcf,mallocs,heap,-,-,-,rfl⟩ := h
  exact fun _ => ⟨rfl, le_max_right _ _⟩

def Connects (_ : World) (t : Turn) : Prop := t.event ≠ .accept → .error ∉ t.sys.connects

instance (w : World) (t : Turn) : Decidable (Connects w t) :=
  inferInstanceAs (Decidable (_ → _))

/-- As long as no `connect` fails at once, no more upstreams are open than
`working_num_max`. -/
theorem open_le_max {w : World} (h : Reaches proxy Connects w)
    (hmax : 0 ≤ w.ln.srvcf.workingNumMax) : (openNum w : ℤ) ≤ w.ln.srvcf.workingNumMax := by
  have hC : Counted (rest w) := by
    refine reaches_along Counted (fun _ h => start_counted h) (fun _ _ h => h)
      (fun _ _ hI hC ha => act_counted ha hI hC) (fun w t u ho _ _ hu hC _ => ?_) h
    refine hC fun c hc => ?_
    obtain ⟨he,herr⟩ := hu.failures _ hc
    exact ho he herr
  obtain ⟨hnum,hle⟩ := hC fun c hc => absurd hc List.not_mem_nil
  rw [max_eq_left (show 0 ≤ (rest w).w.ln.srvcf.workingNumMax from hmax)] at hle
  exact hnum ▸ hle

theorem open_le_max_oneWaits :
    ∃ w, openNum w = 1 ∧ (openNum w : ℤ) ≤ w.ln.srvcf.workingNumMax := by
  have hplay : (play (fun w t => Connects w t) (listener (singlePeer 1) (initialPool true))
      oneWaits).any (fun w => decide (openNum w = 1) && decide (0 ≤ w.ln.srvcf.workingNumMax)) =
      true := by
    decide +kernel
  obtain ⟨w,hr,hw⟩ := play_reaches _ (.start (singlePeer_start 1)) hplay
  obtain ⟨hopen,hmax⟩ := Bool.and_eq_true_iff.mp hw
  exact ⟨w, of_decide_eq_true hopen,
    open_le_max (hr.mono fun _ _ => of_decide_eq_true) (of_decide_eq_true hmax)⟩

/-- The first promotion fails in `connect` and gives back a slot it never had.
Then two clients are promoted although there is one slot. -/
theorem open_exceeds_max :
    ¬ ∀ w, Reachable proxy w → 0 ≤ w.ln.srvcf.workingNumMax →
      (openNum w : ℤ) ≤ w.ln.srvcf.workingNumMax := by
  have hplay : (play (fun _ _ => true) (listener (singlePeer 1) (initialPool true))
      [comes 5, comes 6, asks 0 1 [.error, .inProgress] [], asks 1 2 [.inProgress] [true]]).any
      (fun w => decide (0 ≤ w.ln.srvcf.workingNumMax) &&
        decide (w.ln.srvcf.workingNumMax < (openNum w : ℤ))) = true := by
    decide +kernel
  obtain ⟨w,hr,hw⟩ := play_reaches _ (.start (singlePeer_start 1)) hplay
  obtain ⟨hmax,hlt⟩ := Bool.and_eq_true_iff.mp hw
  intro h
  have hle := h w hr.reachable (of_decide_eq_true hmax)
  have hlt := of_decide_eq_true hlt
  omega

/-- Nobody waits for a free slot, unless a promotion failed. Before the
scheduler runs, one slot may be free or one client may just have come. -/
def NoneIdle (s : Stage) : Prop :=
  s.failures = [] → s.w.ln.cqWaiting ≠ [] →
    if s.due then
      s.w.ln.srvcf.workingNumMax ≤ s.w.ln.workingNum+1 ∨ s.w.ln.cqWaiting.length = 1
    else s.w.ln.srvcf.workingNumMax ≤ s.w.ln.workingNum

theorem same_noneIdle (hN : NoneIdle s) (hcq : t.w.ln.cqWaiting.Sublist s.w.ln.cqWaiting)
    (hnum : t.w.ln.workingNum = s.w.ln.workingNum)
    (hmax : t.w.ln.srvcf.workingNumMax = s.w.ln.srvcf.workingNumMax)
    (hdue : t.due = s.due) (hfail : t.failures = s.failures) : NoneIdle t := by
  intro hf hne
  rw [hfail] at hf
  have hne' : s.w.ln.cqWaiting ≠ [] := by
    intro h
    rw [h] at hcq
    exact hne (List.sublist_nil.mp hcq)
  have h := hN hf hne'
  rw [hnum, hmax, hdue]
  split at h
  · rename_i hd
    rw [if_pos hd]
    refine h.imp_right fun hone => ?_
    have hpos := List.length_pos_iff.mpr hne
    have hle := hcq.length_le
    omega
  · rename_i hd
    rw [if_neg hd]
    exact h

theorem act_noneIdle (h : Act o s t) (hN : NoneIdle s) : NoneIdle t := by
  have hsame := List.Sublist.refl s.w.ln.cqWaiting
  cases h with
  | answers | mallocs | countMax | addBlock | beginFill | fill | lose | answered | drain | leak
  | restClient | restUpstream | doom | settle | stopTimer | stopUpcTimer | link | unlink
  | timeOut | free => exact same_noneIdle hN hsame rfl rfl rfl rfl
  | requested => split <;> exact same_noneIdle hN hsame rfl rfl rfl rfl
  | connect => exact same_noneIdle hN (by simp) (by simp) (by simp) rfl rfl
  | welcome => exact same_noneIdle hN (by simp) (by simp) (by simp) rfl rfl
  | turnAway => exact same_noneIdle hN (by simp) (by simp) (by simp) rfl rfl
  | closeClient =>
    refine same_noneIdle hN ?_ (by simp) (by simp) rfl rfl
    simp only [closedClient_ln]
    split
    · exact List.erase_sublist
    · exact hsame
  | @enqueue w fs is c r hr hs =>
    intro hf hne
    have h := hN hf
    simp only [enqueued_ln, if_true]
    cases hq : w.ln.cqWaiting with
    | nil => exact Or.inr rfl
    | cons d rest =>
      have hle : w.ln.srvcf.workingNumMax ≤ w.ln.workingNum := h (by simp [hq])
      exact Or.inl (by omega)
  | pass hpass =>
    intro _ hne
    exact hpass.resolve_left hne
  | noSocket => exact fun hf => absurd hf (by simp)
  | refuse => exact fun hf => absurd hf (by simp)
  | @promote _ w b fs is c r i fd hs hi hr =>
    intro hf hne
    have hmem := scheduled_mem hs
    have h := hN hf (List.ne_nil_of_mem hmem)
    simp only [if_true] at h
    simp only [promoted_ln, chosen_frame] at hne ⊢
    rw [if_neg (by simp)]
    have hlen := List.length_erase_of_mem hmem
    have hpos := List.length_pos_iff.mpr hne
    rcases h with h | h
    · exact h
    · omega
  | closeUpstream =>
    intro hf hne
    simp only [closedUpstream_frame] at hne ⊢
    have h := hN hf hne
    simp only [Bool.false_eq_true, if_false] at h
    simp only [if_true]
    exact Or.inl (by omega)

def Promotes (_ : World) (t : Turn) : Prop :=
  t.event ≠ .accept →
    none ∉ t.sys.sockets ∧ false ∉ t.sys.fcntls ∧ .error ∉ t.sys.connects

instance (w : World) (t : Turn) : Decidable (Promotes w t) :=
  inferInstanceAs (Decidable (_ → _))

theorem promotes_failures {w : World} {t : Turn} {u : Stage} (h : Promotes w t)
    (hu : Turned w t u) : u.failures = [] := by
  refine List.eq_nil_iff_forall_not_mem.mpr fun f hf => ?_
  have hfail := hu.failures f hf
  obtain ⟨hs,hfc,hconn⟩ := h hfail.1
  cases f with
  | noSocket c => exact hs hfail.2
  | leaked c => exact hfc hfail.2
  | refused c => exact hconn hfail.2

/-- As long as every promotion succeeds, nobody waits while a slot is free. -/
theorem none_idle {w : World} (h : Reaches proxy Promotes w) (hq : w.ln.cqWaiting ≠ []) :
    w.ln.srvcf.workingNumMax ≤ w.ln.workingNum := by
  have hN : NoneIdle (rest w) := by
    refine reaches_along NoneIdle (fun w hw => ?_) (fun _ _ h => h)
      (fun _ _ _ hN ha => act_noneIdle ha hN) (fun w t u ho _ _ hu hN _ hne => ?_) h
    · obtain ⟨srvcf,mallocs,heap,-,-,-,rfl⟩ := hw
      exact fun _ hne => absurd rfl hne
    · have hidle := hN (promotes_failures ho hu) hne
      rw [hu.due] at hidle
      exact hidle
  exact hN rfl hq

theorem none_idle_oneWaits :
    ∃ w : World, w.ln.cqWaiting = [1] ∧ w.ln.srvcf.workingNumMax ≤ w.ln.workingNum := by
  have hplay : (play (fun w t => Promotes w t) (listener (singlePeer 1) (initialPool true))
      oneWaits).any (fun w => w.ln.cqWaiting = [1]) = true := by
    decide +kernel
  obtain ⟨w,hr,hw⟩ := play_reaches _ (.start (singlePeer_start 1)) hplay
  have hq := of_decide_eq_true hw
  exact ⟨w, hq, none_idle (hr.mono fun _ _ => of_decide_eq_true) (by simp [hq])⟩

/-- The only client waits although no slot is taken: `socket` failed, and
nothing tries again. -/
theorem slot_idle :
    ¬ ∀ w, Reachable proxy w → w.ln.cqWaiting ≠ [] →
      w.ln.srvcf.workingNumMax ≤ w.ln.workingNum := by
  have hplay : (play (fun _ _ => true) (listener (singlePeer 1) (initialPool true))
      [comes 5, { event := .fire 0 .eRecv, sys := {
        recvs := [.got [1], .eagain, .eagain], sockets := [none] } }]).any
      (fun w => decide (w.ln.cqWaiting ≠ []) &&
        decide (w.ln.workingNum < w.ln.srvcf.workingNumMax)) = true := by
    decide +kernel
  obtain ⟨w,hr,hw⟩ := play_reaches _ (.start (singlePeer_start 1)) hplay
  obtain ⟨hq,hlt⟩ := Bool.and_eq_true_iff.mp hw
  intro h
  have hle := h w hr.reachable (of_decide_eq_true hq)
  have hlt := of_decide_eq_true hlt
  omega

/-- The number of times `c` has been released since its promotion, where it
has been promoted. -/
def releases (c : ConnId) : List Milestone → Option ℕ :=
  List.foldl (fun n m => if m = .promoted c then some 0 else if m = .released c then n.map (·+1)
    else n) none

theorem releases_snoc (c : ConnId) (log : List Milestone) (m : Milestone) :
    releases c (log ++ [m]) = if m = .promoted c then some 0
      else if m = .released c then (releases c log).map (·+1) else releases c log := by
  simp [releases]

theorem releases_promoted (c : ConnId) (before after : List Milestone)
    (h : .promoted c ∉ after) :
    releases c (before ++ .promoted c :: after) = some (after.count (.released c)) := by
  induction after using List.reverseRecOn with
  | nil => simp [releases_snoc]
  | append_singleton after m ih =>
    rw [List.mem_append, not_or, List.mem_singleton] at h
    rw [← List.cons_append, ← List.append_assoc, releases_snoc, ih h.1,
      if_neg (fun hm => h.2 hm.symm), List.count_append, List.count_singleton]
    by_cases hm : m = .released c
    · simp [hm]
    · simp [hm]

/-- The slot of a promoted client has been released exactly when its upstream
is closed. A promoted client is not queued again. -/
structure Slot (conns : Store XtpConn) (c : ConnId) (n : ℕ) : Prop where
  gone : conns.get c = none → n = 1
  here : ∀ r, conns.get c = some r → r.upcStatus ≠ .none ∧ n = if r.isOpen then 0 else 1
  lt : c < conns.next

def Released (s : Stage) : Prop := ∀ c n, releases c s.w.log = some n → Slot s.w.conns c n

theorem same_released (hS : Released s)
    (hlog : ∀ c, releases c t.w.log = releases c s.w.log)
    (hnext : s.w.conns.next ≤ t.w.conns.next)
    (hgone : ∀ c < s.w.conns.next, t.w.conns.get c = none →
      ∀ r, s.w.conns.get c = some r → r.isOpen = false)
    (hkeep : ∀ c < s.w.conns.next, ∀ r', t.w.conns.get c = some r' →
      ∃ r, s.w.conns.get c = some r ∧ (r.upcStatus ≠ .none → r'.upcStatus ≠ .none) ∧
        r'.isOpen = r.isOpen) : Released t := by
  intro c n hn
  rw [hlog] at hn
  obtain ⟨h1,h2,h3⟩ := hS c n hn
  refine ⟨fun hnone => ?_, fun r' hr' => ?_, Nat.lt_of_lt_of_le h3 hnext⟩
  · cases hr : s.w.conns.get c with
    | none => exact h1 hr
    | some r =>
      have hclosed := hgone c h3 hnone r hr
      have hn := (h2 r hr).2
      rw [hclosed] at hn
      exact hn
  · obtain ⟨r,hr,hup,ho⟩ := hkeep c h3 r' hr'
    obtain ⟨hne,hn⟩ := h2 r hr
    rw [ho]
    exact ⟨hup hne, hn⟩

theorem released_put (hS : Released s) {c : ConnId} {r r' : XtpConn}
    (hr : s.w.conns.get c = some r) (hput : t.w.conns = s.w.conns.set c r')
    (hlog : ∀ d, releases d t.w.log = releases d s.w.log)
    (hup : r.upcStatus ≠ .none → r'.upcStatus ≠ .none) (ho : r'.isOpen = r.isOpen) :
    Released t := by
  refine same_released hS hlog (by rw [hput]; rfl) (fun d _ hnone rd hrd => ?_)
    fun d _ rd hrd => ?_
  · rw [hput, Store.set_get] at hnone
    split at hnone
    · cases hnone
    · rw [hrd] at hnone
      cases hnone
  · rw [hput, Store.set_some] at hrd
    rcases hrd with ⟨rfl,rfl⟩ | ⟨-,hrd⟩
    · exact ⟨r, hr, hup, ho⟩
    · exact ⟨rd, hrd, id, rfl⟩

theorem released_own (hS : Released s) {c : ConnId} {r r' : XtpConn} (hI : Inv s)
    (hr : s.w.conns.get c = some r) (hput : t.w.conns = s.w.conns.set c r')
    (hlog : ∀ d, d ≠ c → releases d t.w.log = releases d s.w.log) (hup : r'.upcStatus ≠ .none)
    (hown : ∀ n, releases c t.w.log = some n → n = if r'.isOpen then 0 else 1) : Released t := by
  intro d n hn
  by_cases hd : d = c
  · subst hd
    refine ⟨fun hnone => ?_, fun rd hrd => ?_, ?_⟩
    · rw [hput] at hnone
      simp at hnone
    · rw [hput] at hrd
      simp only [Store.set_get, if_true, Option.some.injEq] at hrd
      subst hrd
      exact ⟨hup, hown n hn⟩
    · rw [hput]
      exact hI.records.wellFormed.lt hr
  · rw [hlog d hd] at hn
    obtain ⟨h1,h2,h3⟩ := hS d n hn
    refine ⟨fun hnone => h1 ?_, fun rd hrd => h2 rd ?_, ?_⟩
    · simpa [hput, hd] using hnone
    · simpa [hput, hd] using hrd
    · rw [hput]
      exact h3

theorem releases_some {c : ConnId} {log : List Milestone} {n : ℕ} (h : releases c log = some n) :
    .promoted c ∈ log := by
  induction log using List.reverseRecOn generalizing n with
  | nil => cases h
  | append_singleton log m ih =>
    rw [releases_snoc] at h
    by_cases hm : m = .promoted c
    · exact List.mem_append_right _ (by simp [hm])
    rw [if_neg hm] at h
    refine List.mem_append_left _ ?_
    cases hlog : releases c log with
    | some k => exact ih hlog
    | none =>
      rw [hlog] at h
      simp at h

theorem queued_releases (hH : History s) {c : ConnId} (hc : c ∈ s.w.ln.cqWaiting) :
    releases c s.w.log = none := by
  cases h : releases c s.w.log with
  | none => rfl
  | some n =>
    have hmem : Fifo.Event.served c ∈ admissions s.w.log :=
      List.mem_filterMap.mpr ⟨_, releases_some h, rfl⟩
    exact absurd hmem (hH.ledger.queued_not_served hc)

theorem quiet_released (hS : Released s) (hconns : t.w.conns = s.w.conns)
    (hlog : t.w.log = s.w.log) : Released t := by
  refine same_released hS (by simp [hlog]) (by simp [hconns]) (fun c _ hnone r hr => ?_)
    fun c _ r hr => ⟨r, hconns ▸ hr, id, rfl⟩
  rw [hconns, hr] at hnone
  cases hnone

theorem act_released (h : Act o s t) (hI : Inv s) (hH : History s) (hS : Released s) :
    Released t := by
  cases h with
  | answers | mallocs | countMax | addBlock | beginFill | fill | lose | answered | drain | leak
  | restClient | restUpstream | pass | doom | settle | stopTimer | stopUpcTimer =>
    exact quiet_released hS rfl rfl
  | requested => split <;> exact quiet_released hS rfl rfl
  | turnAway => exact quiet_released hS (by simp) (by simp)
  | link hr => exact released_put hS hr rfl (fun _ => rfl) (by simp) (by simp)
  | unlink hr => exact released_put hS hr rfl (fun _ => rfl) (by simp) (by simp)
  | enqueue hr => exact released_put hS hr rfl (by simp [releases_snoc]) id rfl
  | noSocket leaked hs hi hr =>
    exact released_put hS hr (abandoned_conns ..) (by simp) id rfl
  | connect timeout hr hup =>
    exact released_put hS hr (connected_conns ..)
      (by simp) (by simp) (by simp [XtpConn.isOpen, hup])
  | timeOut hr => exact released_put hS hr rfl (fun _ => rfl) id rfl
  | closeClient hr =>
    exact released_put hS hr (closedClient_conns ..) (by simp [releases_snoc]) id (by rfl)
  | promote hs hi hr =>
    refine released_own hS hI hr (promoted_conns ..) (fun d hd => ?_) (by simp [dialledConn]) ?_
    · simp [releases_snoc, Ne.symm hd]
    · intro n hn
      simp only [promoted_frame, releases_snoc, if_true, Option.some.injEq] at hn
      exact hn.symm
  | @refuse _ w b fs is c r i fd hs hi hr =>
    have hnone : releases c w.log = none := queued_releases hH (scheduled_mem hs)
    refine released_own hS hI hr (closedUpstream_conns ..) (fun d hd => ?_) (by simp) ?_
    · simp [releases_snoc, Ne.symm hd]
    · intro n hn
      simp [releases_snoc, hnone] at hn
  | @closeUpstream w busy fs is c r hr hup hbusy =>
    refine released_own hS hI hr (closedUpstream_conns ..) (fun d hd => ?_) (by simp) ?_
    · simp [releases_snoc, Ne.symm hd]
    · intro n hn
      simp only [closedUpstream_frame, releases_snoc, reduceCtorEq, if_false, if_true,
        Option.map_eq_some_iff] at hn
      obtain ⟨k,hk,rfl⟩ := hn
      have hzero := ((hS c k hk).here r hr).2
      rw [if_pos hup] at hzero
      simp [hzero, XtpConn.isOpen]
  | @free w fs is c r hr hs hup =>
    refine same_released hS (fun _ => rfl) (Nat.le_refl _) (fun d _ hnone rd hrd => ?_)
      fun d _ rd hrd => ⟨rd, ((Store.free_some ..).mp hrd).2, id, rfl⟩
    by_cases hd : d = c
    · subst hd
      cases hr.symm.trans hrd
      exact hup
    · have hsome : (freed w c).conns.get d = some rd := by simpa [hd] using hrd
      rw [hsome] at hnone
      cases hnone
  | @welcome w fs is fd =>
    have hget : ∀ d < w.conns.next, (admitted (accepted w fd) fd).conns.get d = w.conns.get d := by
      intro d hd
      simp [Nat.ne_of_lt hd]
    refine same_released hS (by simp) (by simp) (fun d hd hnone rd hrd => ?_)
      fun d hd rd hrd => ⟨rd, (hget d hd).symm.trans hrd, id, rfl⟩
    rw [hget d hd, hrd] at hnone
    cases hnone

theorem reachable_released {w : World} (h : Reachable proxy w) :
    History (rest w) ∧ Released (rest w) := by
  refine reaches_along (fun s => History s ∧ Released s) (fun w hw => ⟨start_history hw, ?_⟩)
    (fun _ _ h => ⟨same_history h.1 rfl rfl rfl, h.2⟩)
    (fun _ _ hI h ha => ⟨act_history ha hI h.1, act_released ha hI h.1 h.2⟩)
    (fun _ _ _ _ _ _ _ h => ⟨same_history h.1 rfl rfl rfl, h.2⟩) h
  obtain ⟨srvcf,mallocs,heap,-,-,-,rfl⟩ := hw
  rintro c n ⟨⟩

def slotChange : Milestone → ℤ
  | .promoted _ => 1
  | .released _ => -1
  | .inserted _ | .closed _ => 0

def slotsTaken (log : List Milestone) : ℤ := (log.map slotChange).sum

@[simp] theorem slotsTaken_snoc (log : List Milestone) (m : Milestone) :
    slotsTaken (log ++ [m]) = slotsTaken log+slotChange m := by
  simp [slotsTaken]

theorem act_taken (h : Act o s t) (hT : s.w.ln.workingNum = slotsTaken s.w.log) :
    t.w.ln.workingNum = slotsTaken t.w.log := by
  cases h with
  | requested => split <;> exact hT
  | enqueue => simpa [slotChange] using hT
  | promote => simpa [slotChange] using hT
  | refuse =>
    simpa [slotChange, sub_eq_add_neg] using hT
  | closeUpstream =>
    simpa [slotChange, sub_eq_add_neg] using hT
  | closeClient => simpa [slotChange] using hT
  | noSocket => simpa using hT
  | connect => simpa using hT
  | welcome => simpa using hT
  | turnAway => simpa using hT
  | _ => exact hT

theorem reachable_taken {w : World} (h : Reachable proxy w) :
    w.ln.workingNum = slotsTaken w.log := by
  refine reaches_along (fun s => s.w.ln.workingNum = slotsTaken s.w.log) (fun w hw => ?_)
    (fun _ _ h => h) (fun _ _ _ hT ha => act_taken ha hT) (fun _ _ _ _ _ _ _ h => h) h
  obtain ⟨srvcf,mallocs,heap,-,-,-,rfl⟩ := hw
  rfl

/-- The slot of a promoted client is released once, when its upstream closes,
and no later than its record is freed. The releases are the decrements of
`working_num`. -/
theorem released_once {w : World} (h : Reachable proxy w) (c : ConnId)
    (before after : List Milestone) (hlog : w.log = before ++ .promoted c :: after) :
    w.ln.workingNum = slotsTaken w.log ∧
    ((∃ r, w.conns.get c = some r ∧ (r.upcStatus = .connect ∨ r.upcStatus = .working) ∧
      after.count (.released c) = 0) ∨
    (∃ r, w.conns.get c = some r ∧ r.upcStatus = .close ∧ after.count (.released c) = 1) ∨
    (w.conns.get c = none ∧ after.count (.released c) = 1)) := by
  refine ⟨reachable_taken h, ?_⟩
  obtain ⟨hH,hS⟩ := reachable_released h
  have hlater : .promoted c ∉ after := by
    intro hmem
    have hn := hH.ledger.served_once
    rw [show (rest w).w.log = _ from hlog, ← List.singleton_append, admissions_append,
      admissions_append, Fifo.services_append, Fifo.services_append] at hn
    have hd := (List.nodup_append.mp (List.nodup_append.mp hn).2.1).2.2
    have hc : c ∈ Fifo.services (admissions after) :=
      Fifo.mem_services.mpr (List.mem_filterMap.mpr ⟨_, hmem, rfl⟩)
    exact hd c (List.mem_singleton_self c) c hc rfl
  have hcount := releases_promoted c before after hlater
  rw [← hlog] at hcount
  obtain ⟨hgone,hhere,-⟩ := hS c _ hcount
  cases hr : w.conns.get c with
  | none => exact Or.inr (Or.inr ⟨rfl, hgone hr⟩)
  | some r =>
    obtain ⟨hne,hn⟩ := hhere r hr
    cases ho : r.isOpen with
    | true =>
      rw [if_pos ho] at hn
      exact Or.inl ⟨r, rfl, isOpen_iff.mp ho, hn⟩
    | false =>
      rw [if_neg (by simp [ho])] at hn
      have hphase := (reaches_inv h).records.phase c r hr
      have hclose := (SchedulerSimulation.closed_upcStatus hphase ho).resolve_left hne
      exact Or.inr (Or.inl ⟨r, rfl, hclose, hn⟩)

theorem released_once_ended : ∃ w : World, ∃ before after,
    w.log = before ++ .promoted 0 :: after ∧ .released 0 ∈ after ∧
    w.ln.workingNum = slotsTaken w.log ∧
    ((∃ r, w.conns.get 0 = some r ∧ (r.upcStatus = .connect ∨ r.upcStatus = .working) ∧
      after.count (.released 0) = 0) ∨
    (∃ r, w.conns.get 0 = some r ∧ r.upcStatus = .close ∧ after.count (.released 0) = 1) ∨
    (w.conns.get 0 = none ∧ after.count (.released 0) = 1)) := by
  have hplay : (play (fun _ _ => true) (listener (singlePeer 1) (initialPool true))
      (oneWaits ++ [ends 0 [.inProgress] [true, true]])).any (fun w =>
        w.log = [.inserted 0] ++ .promoted 0 :: [.inserted 1, .released 0, .promoted 1]) =
      true := by
    decide +kernel
  obtain ⟨w,hr,hw⟩ := play_reaches _ (.start (singlePeer_start 1)) hplay
  have hlog := of_decide_eq_true hw
  exact ⟨w, _, _, hlog, by simp, released_once hr.reachable 0 _ _ hlog⟩

end TcpFunnel.SlotCounting
