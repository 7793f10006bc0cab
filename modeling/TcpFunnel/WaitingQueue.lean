import TcpFunnel.Runs

/-!
# The waiting queue

A name that is queued and no longer waits was left there by the timeout of a
waiting client. Without such a timeout the queue holds exactly the waiting
records, and the scheduler meets no freed one.
-/

set_option autoImplicit false

namespace TcpFunnel.WaitingQueue
open TcpFunnel.BufferPool TcpFunnel.Connection TcpFunnel.EventLoop TcpFunnel.Reachability
open TcpFunnel.Actions TcpFunnel.Invariants TcpFunnel.QueueInvariant TcpFunnel.StageInvariant
open TcpFunnel.StepSimulation TcpFunnel.Runs

variable {o : Option ConnId} {s t : Stage}

/-- Every queued name is a waiting record or one that has timed out waiting. -/
def Accounted (s : Stage) : Prop :=
  ∀ c ∈ s.w.ln.cqWaiting,
    (∃ r, s.w.conns.get c = some r ∧ r.status = .waiting) ∨ .timedOutWaiting c ∈ s.incidents

theorem same_accounted (hA : Accounted s) (hconns : t.w.conns = s.w.conns)
    (hcq : t.w.ln.cqWaiting = s.w.ln.cqWaiting) (hi : s.incidents ⊆ t.incidents) : Accounted t := by
  intro c hc
  rw [hcq] at hc
  rw [hconns]
  exact (hA c hc).imp_right (hi ·)

theorem accounted_put (hA : Accounted s) {c : ConnId} {r r' : XtpConn}
    (hr : s.w.conns.get c = some r) (hput : t.w.conns = s.w.conns.set c r')
    (hcq : t.w.ln.cqWaiting = s.w.ln.cqWaiting) (hi : t.incidents = s.incidents)
    (hs : r.status = .waiting → r'.status = .waiting) : Accounted t := by
  intro d hd
  rw [hcq] at hd
  rw [hput, hi]
  by_cases hdc : d = c
  · subst hdc
    refine (hA d hd).imp_left ?_
    rintro ⟨r'',hr'',hw⟩
    cases hr.symm.trans hr''
    exact ⟨r', by simp, hs hw⟩
  · simpa [hdc] using hA d hd

theorem accounted_leave (hA : Accounted s) (hn : s.w.ln.cqWaiting.Nodup) {c : ConnId}
    {r' : XtpConn} (hput : t.w.conns = s.w.conns.set c r')
    (hcq : t.w.ln.cqWaiting = s.w.ln.cqWaiting.erase c) (hi : t.incidents = s.incidents) :
    Accounted t := by
  intro d hd
  rw [hcq] at hd
  obtain ⟨hne,hd⟩ := hn.mem_erase_iff.mp hd
  rw [hput, hi]
  simpa [hne] using hA d hd

theorem act_accounted (h : Act o s t) (hI : Inv s) (hA : Accounted s) : Accounted t := by
  have hi := act_incidents_subset h
  cases h with
  | answers | mallocs | countMax | addBlock | beginFill | fill | answered | drain | leak
  | restClient | pass | doom | settle | stopTimer | stopUpcTimer =>
    exact same_accounted hA rfl rfl hi
  | requested => split <;> exact same_accounted hA rfl rfl hi
  | lose => exact same_accounted hA rfl rfl hi
  | restUpstream => exact same_accounted hA rfl rfl hi
  | link hr => exact accounted_put hA hr rfl rfl rfl (by simp)
  | unlink hr => exact accounted_put hA hr rfl rfl rfl (by simp)
  | @enqueue w fs is c r hr hs =>
    intro d hd
    rcases List.mem_append.mp hd with hd | hd
    · by_cases hdc : d = c
      · exact Or.inl ⟨{ r with status := .waiting }, by simp [hdc], rfl⟩
      · simpa [hdc] using hA d hd
    · obtain rfl := List.mem_singleton.mp hd
      exact Or.inl ⟨{ r with status := .waiting }, by simp, rfl⟩
  | noSocket leaked hs hi hr => exact accounted_put hA hr (abandoned_conns ..) (by simp) rfl id
  | promote hs hi hr =>
    exact accounted_leave hA hI.queue.nodup (promoted_conns ..) (by simp) rfl
  | refuse hs hi hr => exact accounted_put hA hr (closedUpstream_conns ..) (by simp) rfl id
  | connect timeout hr => exact accounted_put hA hr (connected_conns ..) (by simp) rfl id
  | closeUpstream hr => exact accounted_put hA hr (closedUpstream_conns ..) (by simp) rfl id
  | @timeOut w fs is c r hr hs =>
    by_cases hw : r.status = .waiting
    · rw [if_pos hw]
      intro d hd
      by_cases hdc : d = c
      · exact Or.inr (by simp [hdc])
      · have hd' := hA d hd
        simp only [World.putConn_conns, Store.set_get, if_neg hdc]
        exact hd'.imp_right (List.mem_append_left _)
    · rw [if_neg hw]
      exact accounted_put hA hr rfl rfl rfl (fun h => absurd h hw)
  | @closeClient w fs is c r hr hs hup =>
    by_cases hw : r.status = .waiting
    · exact accounted_leave hA hI.queue.nodup (closedClient_conns ..) (by simp [hw]) rfl
    · exact accounted_put hA hr (closedClient_conns ..) (by simp [hw]) rfl (fun h => absurd h hw)
  | @free w fs is c r hr hs =>
    intro d hd
    refine (hA d hd).imp_left ?_
    rintro ⟨r',hr',hw⟩
    have hne : d ≠ c := by
      rintro rfl
      cases hr.symm.trans hr'
      rw [hs] at hw
      cases hw
    exact ⟨r', (if_neg hne).trans hr', hw⟩
  | @welcome w fs is fd =>
    intro d hd
    have hd' : d ∈ w.ln.cqWaiting := by simpa using hd
    have hlt : d < w.conns.next := hI.queue.lt d hd'
    refine Or.imp (by simp [Nat.ne_of_lt hlt]) (fun h => ?_) (hA d hd')
    dsimp only
    split
    · exact List.mem_append_left _ h
    · exact h
  | turnAway => exact same_accounted hA (by simp) (by simp) hi

/-- A client that has timed out waiting is being closed, or the callback is
over. -/
def Marked (busy : Busy) (is : List Incident) : Prop :=
  ∀ c, .timedOutWaiting c ∈ is → busy = .closing c ∨ busy = .over

theorem marked_none {busy busy' : Busy} {is : List Incident} (h : Marked busy is)
    (hc : ∀ c, busy ≠ .closing c) (ho : busy ≠ .over) : Marked busy' is :=
  fun c hm => absurd (h c hm) (not_or.mpr ⟨hc c, ho⟩)

theorem marked_append {busy : Busy} {is : List Incident} (h : Marked busy is) {i : Incident}
    (hi : ∀ c, i ≠ .timedOutWaiting c) : Marked busy (is ++ [i]) := by
  intro c hm
  rcases List.mem_append.mp hm with hm | hm
  · exact h c hm
  · exact absurd (List.mem_singleton.mp hm).symm (hi c)

theorem act_marked (h : Act o s t) (hM : Marked s.busy s.incidents) :
    Marked t.busy t.incidents := by
  cases h with
  | answers | mallocs | countMax | addBlock | drain | unlink | restClient | pass | noSocket
  | promote | refuse | connect | closeClient | stopTimer | stopUpcTimer | enqueue => exact hM
  | welcome | turnAway =>
    split
    · exact marked_append hM (by simp)
    · exact hM
  | beginFill | link | fill | answered | requested | leak | doom =>
    exact marked_none hM (by simp) (by simp)
  | lose =>
    split
    · exact marked_append (marked_none hM (by simp) (by simp)) (by simp)
    · exact marked_none hM (by simp) (by simp)
  | restUpstream =>
    split
    · exact hM
    · exact marked_append hM (by simp)
  | closeUpstream hr hup hbusy =>
    rcases hbusy with rfl | ⟨p,rfl⟩ | rfl
    · exact hM
    · exact marked_none hM (by simp) (by simp)
    · exact hM
  | @timeOut w fs is c =>
    have hnone : Marked (.closing c) is := marked_none hM (by simp) (by simp)
    split
    · intro d hd
      rcases List.mem_append.mp hd with hd | hd
      · exact hnone d hd
      · cases List.mem_singleton.mp hd
        exact Or.inl rfl
    · exact hnone
  | settle | free => exact fun _ _ => Or.inr rfl

structure QueueExact (w : World) : Prop where
  nodup : w.ln.cqWaiting.Nodup
  mem : ∀ c, c ∈ w.ln.cqWaiting ↔ ∃ r, w.conns.get c = some r ∧ r.status = .waiting
  num : w.ln.cqWaitingNum = w.ln.cqWaiting.length

/-- The turn does not run `x_timeout_cb` on a client that waits. -/
def SparesWaiting (w : World) (t : Turn) : Prop :=
  match t.event with
  | .fire c .eTimer => ∀ r ∈ w.conns.get c, r.status ≠ .waiting
  | _ => True

instance (w : World) (t : Turn) : Decidable (SparesWaiting w t) := by
  unfold SparesWaiting
  split <;> infer_instance

theorem start_accounted {w : World} (h : Start w) : Accounted (rest w) := by
  obtain ⟨srvcf,mallocs,heap,-,-,-,rfl⟩ := h
  exact fun c hc => absurd hc List.not_mem_nil

theorem spared_accounted {w : World} (h : Reaches proxy SparesWaiting w) : Accounted (rest w) := by
  refine reaches_along Accounted (fun _ h => start_accounted h) (fun _ _ h => h)
    (fun s u hI hP ha => act_accounted ha hI hP) (fun w t u ho _ _ hu hP => ?_) h
  intro c hc
  refine Or.inl ((hP c hc).resolve_right fun hm => ?_)
  obtain ⟨he,r,hr,hw⟩ := hu.incidents _ hm
  unfold SparesWaiting at ho
  rw [he] at ho
  exact ho r hr hw

theorem no_useAfterFree {w : World} (hI : Inv (rest w)) (hA : Accounted (rest w)) {t : Turn}
    (ha : Active w t.event) (w' : World) : run w t ≠ .error .useAfterFree w' := by
  intro hrun
  obtain ⟨u,hpath,hcut⟩ := stopped_path hI ha hrun
  have hI' := supply_inv t hI
  have hAu := path_along Accounted (fun s u hI hP ha => act_accounted ha hI hP) hI' hA hpath
  have hMu := path_along (fun s => Marked s.busy s.incidents)
    (fun s u _ hP ha => act_marked ha hP) hI'
    (fun c hm => absurd hm List.not_mem_nil) hpath
  rcases hcut.reason with h | ⟨-,hover,c,hc,hnone⟩ | ⟨h,-⟩
  · cases h
  · rcases hAu c hc with ⟨r,hr,-⟩ | hm
    · rw [hnone] at hr
      cases hr
    · have hbusy := (hMu c hm).resolve_right hover
      have hlive := (path_inv hpath hI').records.live c (by rw [hbusy]; rfl)
      exact hlive hnone
  · cases h

/-- As long as no client times out while it waits, the queue is exact between
two callbacks, and no callback dereferences a freed record. -/
theorem queue_exact {w : World} (h : Reaches proxy SparesWaiting w) :
    QueueExact w ∧
      ∀ t w', Active w t.event → run w t ≠ .error .useAfterFree w' := by
  have hI := reaches_inv h
  have hA := spared_accounted h
  refine ⟨⟨hI.queue.nodup, fun c => ⟨fun hc => ?_, ?_⟩, hI.queue.num⟩, ?_⟩
  · exact (hA c hc).resolve_right List.not_mem_nil
  · rintro ⟨r,hr,hw⟩
    exact hI.queue.all c r hr hw
  · exact fun t w' ha => no_useAfterFree hI hA ha w'

theorem queue_exact_oneWaits :
    ∃ w, w.ln.cqWaiting = [1] ∧ QueueExact w ∧
      ∀ t w', Active w t.event → run w t ≠ .error .useAfterFree w' := by
  have hplay : (play (fun w t => SparesWaiting w t) (listener (singlePeer 1) (initialPool true))
      oneWaits).any (fun w => w.ln.cqWaiting = [1]) = true := by
    decide +kernel
  obtain ⟨w,hr,hw⟩ := play_reaches _ (.start (singlePeer_start 1)) hplay
  exact ⟨w, of_decide_eq_true hw, queue_exact (hr.mono fun _ _ => of_decide_eq_true)⟩

/-- The second client times out while it waits. Its freed record stays in the
queue, and the scheduler takes it from there when the slot is released. -/
theorem queue_dangles :
    ¬ (∀ w, Reachable proxy w → QueueExact w) ∧
    ¬ (∀ w t w', Reachable proxy w → Active w t.event → run w t ≠ .error .useAfterFree w') := by
  have hplay : (play (fun _ _ => true) (listener (singlePeer 1) (initialPool true))
      (oneWaits ++ [{ event := .fire 1 .eTimer }])).any (fun w =>
        decide (1 ∈ w.ln.cqWaiting) && (w.conns.get 1).isNone && w.loop 0 .upcERecv &&
          stopsFor w (ends 0 [] []) .useAfterFree) = true := by
    decide +kernel
  obtain ⟨w,hr,hw⟩ := play_reaches _ (.start (singlePeer_start 1)) hplay
  simp only [Bool.and_eq_true, decide_eq_true_eq, Option.isNone_iff_eq_none] at hw
  obtain ⟨⟨⟨hmem,hnone⟩,hactive⟩,hrun⟩ := hw
  constructor
  · intro h
    obtain ⟨r,hget,-⟩ := ((h w hr.reachable).mem 1).mp hmem
    rw [hnone] at hget
    cases hget
  · intro h
    obtain ⟨w',hres⟩ := stopsFor_run hrun
    exact h w (ends 0 [] []) w' hr.reachable hactive hres

end TcpFunnel.WaitingQueue
