import TcpFunnel.AccessSimulation

/-!
# A turn of the event loop

Every turn is a path of actions that starts between two callbacks and, when
the callback returns, ends there. Each incident and each failed promotion on
the path goes back to the event of the turn and to the answers it was given.
-/

set_option autoImplicit false

namespace TcpFunnel.StepSimulation
open TcpFunnel.BufferPool TcpFunnel.Connection TcpFunnel.SystemCalls TcpFunnel.Upstream
open TcpFunnel.Access TcpFunnel.EventLoop TcpFunnel.Simulation
open TcpFunnel.Actions TcpFunnel.Invariants TcpFunnel.RecordInvariant
open TcpFunnel.StageInvariant TcpFunnel.TransferRuns TcpFunnel.PipeSimulation
open TcpFunnel.ClosingSimulation TcpFunnel.UpstreamSimulation TcpFunnel.AccessSimulation

/-- What leads to an incident in the turn `t` from `w`, which leaves the
answers `left` of `send` unused. -/
def Blamed (w : World) (t : Turn) (left : List SendAnswer) : Incident → Prop
  | .timedOutWaiting c =>
    t.event = .fire c .eTimer ∧ ∃ r, w.conns.get c = some r ∧ r.status = .waiting
  | .bytesLost c =>
    t.event = .fire c .upcERecv ∧ CutShort (room w c .pipe2) (capacity w.heap) t.sys.recvs
  | .stalled c =>
    t.event = .fire c .upcESend ∧
      ∃ used, t.sys.sends = used ++ left ∧ used.getLast? = some .eagain
  | .noClient => t.event = .accept ∧ .error ∈ t.sys.accepts

def Failed (t : Turn) (f : Failure) : Prop := t.event ≠ .accept ∧ FailedWith t.sys f

def subject : Event → Option ConnId
  | .accept => none
  | .fire c _ => some c

structure Turned (w : World) (t : Turn) (u : Stage) : Prop where
  busy : u.busy = .idle ∨ u.busy = .over
  due : u.due = false
  incidents : ∀ i ∈ u.incidents, Blamed w t u.w.sys.sends i
  failures : ∀ f ∈ u.failures, Failed t f
  closed : ∀ c, t.event = .fire c .eSend → (∀ r, u.w.conns.get c = some r → r.status ≠ .close) ∨
    (∃ a ∈ t.sys.sends, EndsSend a) ∨ Emptied (rest (supply w t)) c u
  freed : ∀ c, t.event = .fire c .eTimer → u.w.conns.get c = none

theorem act_shrinks {o : Option ConnId} {s t : Stage} (h : Act o s t) :
    Shrinks s.w.sys t.w.sys := by
  cases h with
  | answers t h => exact h
  | requested => split <;> exact shrinks_refl _
  | _ => simp [shrinks_refl]

theorem path_shrinks {o : Option ConnId} {s t : Stage} (h : Acts o s t) :
    Shrinks s.w.sys t.w.sys := by
  induction h with
  | refl => exact shrinks_refl _
  | tail _ ha ih => exact shrinks_trans ih (act_shrinks ha)

theorem failedWith_earlier {t t' : Answers} {f : Failure} (ht : Shrinks t t')
    (h : FailedWith t' f) : FailedWith t f := by
  cases f with
  | noSocket => exact ht.sockets.subset h
  | leaked => exact ht.fcntls.subset h
  | refused => exact ht.connects.subset h

theorem act_failures {o : Option ConnId} {s t : Stage} (h : Act o s t) {f : Failure}
    (hf : f ∈ t.failures) :
    f ∈ s.failures ∨ FailedWith s.w.sys f := by
  cases h with
  | noSocket leaked hs hi hr hfd hfail =>
    refine (List.mem_append.mp hf).imp_right fun h => ?_
    obtain rfl := List.mem_singleton.mp h
    exact hfail
  | refuse hs hi hr hfd hfail =>
    refine (List.mem_append.mp hf).imp_right fun h => ?_
    obtain rfl := List.mem_singleton.mp h
    exact hfail
  | _ => exact Or.inl hf

theorem path_failures {o : Option ConnId} {s t : Stage} (h : Acts o s t) {f : Failure}
    (hf : f ∈ t.failures) :
    f ∈ s.failures ∨ FailedWith s.w.sys f := by
  induction h with
  | refl => exact Or.inl hf
  | tail hp ha ih =>
    rcases act_failures ha hf with h | h
    · exact ih h
    · exact Or.inr (failedWith_earlier (path_shrinks hp) h)

variable {w : World} {t : Turn}

theorem fired_record (hI : Inv (rest w)) {c : ConnId} {k : Watcher}
    (ha : Active w (.fire c k)) : ∃ r, w.conns.get c = some r := by
  cases hr : w.conns.get c with
  | some r => exact ⟨r, rfl⟩
  | none =>
    have hoff : w.loop c k = false := hI.records.absent c hr k
    rw [show w.loop c k = true from ha] at hoff
    cases hoff

/-- What holds of the stage in which a callback returns, apart from the
failures, which are read off its path. -/
structure Dispatched (w : World) (t : Turn) (u : Stage) : Prop where
  busy : u.busy = .idle ∨ u.busy = .over
  due : u.due = false
  incidents : ∀ i ∈ u.incidents, Blamed w t u.w.sys.sends i
  quiet : t.event = .accept → u.failures = []
  closed : ∀ c, t.event = .fire c .eSend → (∀ r, u.w.conns.get c = some r → r.status ≠ .close) ∨
    (∃ a ∈ t.sys.sends, EndsSend a) ∨ Emptied (rest (supply w t)) c u
  freed : ∀ c, t.event = .fire c .eTimer → u.w.conns.get c = none

theorem returned_dispatched {u : Stage} {c : ConnId} {k : Watcher} {is : List Incident}
    (h : Returned is u) (he : t.event = .fire c k) (hk : k ≠ .eSend)
    (hfree : k = .eTimer → u.w.conns.get c = none)
    (hi : ∀ i ∈ is, Blamed w t u.w.sys.sends i) : Dispatched w t u := by
  refine ⟨h.busy, h.due, fun i hi' => hi i (h.incidents ▸ hi'), ?_, fun d hd => ?_, fun d hd => ?_⟩
  · rw [he]
    rintro ⟨⟩
  · rw [he] at hd
    cases hd
    exact absurd rfl hk
  · rw [he] at hd
    cases hd
    exact hfree rfl

theorem sim_dispatch (hI : Inv (rest w)) (ha : Active w t.event) :
    Sim (subject t.event) (rest (supply w t)) (dispatch t.event) fun _ u => Dispatched w t u := by
  have hI' := supply_inv t hI
  have hnone : ∀ {left} (i : Incident), i ∈ [] → Blamed w t left i := fun _ h => by cases h
  cases he : t.event with
  | accept =>
    refine sim_acceptCb.mono fun _ u _ hu => ?_
    obtain ⟨is,hret,hquiet,herr⟩ := hu
    refine ⟨hret.busy, hret.due, fun i hi => ?_, fun _ => hquiet, ?_, ?_⟩
    · rw [hret.incidents] at hi
      rcases herr with rfl | ⟨rfl,herr⟩
      · exact hnone i hi
      · obtain rfl := List.mem_singleton.mp hi
        exact ⟨he, herr⟩
    · rw [he]
      rintro _ ⟨⟩
    · rw [he]
      rintro _ ⟨⟩
  | fire c k =>
    rw [he] at ha
    obtain ⟨r,hr⟩ := fired_record hI ha
    cases k with
    | eRecv =>
      exact (sim_recvCb hI' hr ha).mono fun _ u _ hu =>
        returned_dispatched hu he (by decide) (by simp) hnone
    | eSend =>
      refine (sim_sendCb hI' hr ha).mono fun _ u _ hu => ⟨hu.busy, hu.due, ?_, ?_, ?_, ?_⟩
      · rw [hu.incidents]
        exact hnone
      · rw [he]
        rintro ⟨⟩
      · intro d hd
        rw [he] at hd
        cases hd
        exact hu.closed
      · rw [he]
        rintro _ ⟨⟩
    | eTimer =>
      refine (sim_timeoutCb hI' hr).mono fun _ u _ hu =>
        returned_dispatched hu.1 he (by decide) (fun _ => hu.2) ?_
      intro i hi
      by_cases hs : r.status = .waiting
      · rw [if_pos hs] at hi
        obtain rfl := List.mem_singleton.mp hi
        exact ⟨he, r, hr, hs⟩
      · rw [if_neg hs] at hi
        exact hnone i hi
    | upcERecv =>
      refine (sim_upstreamRecvCb hI' hr ha).mono fun _ u _ hu => ?_
      obtain ⟨is,hret,hcut⟩ := hu
      refine returned_dispatched hret he (by decide) (by simp) fun i hi => ?_
      rcases hcut with rfl | ⟨rfl,hcut⟩
      · exact hnone i hi
      · obtain rfl := List.mem_singleton.mp hi
        exact ⟨he, hcut⟩
    | upcESend =>
      refine (sim_upstreamSendCb hI' hr ha).mono fun _ u _ hu => ?_
      obtain ⟨hb,hd,hstall⟩ := hu
      rcases hstall with hi | ⟨hi,hused⟩
      · exact returned_dispatched ⟨Or.inl hb, hd, hi⟩ he (by decide) (by simp) hnone
      · refine returned_dispatched ⟨Or.inl hb, hd, hi⟩ he (by decide) (by simp) fun i hmem => ?_
        obtain rfl := List.mem_singleton.mp hmem
        exact ⟨he, hused⟩
    | upcEConnected =>
      exact (sim_connectedCb hI' hr ha).mono fun _ u _ hu =>
        returned_dispatched hu he (by decide) (by simp) hnone
    | upcETimer =>
      exact (sim_upstreamTimeoutCb hI' hr ha).mono
        fun _ u _ hu => returned_dispatched hu he (by decide) (by simp) hnone

theorem returned_path (hI : Inv (rest w)) (ha : Active w t.event) {w' : World}
    (hrun : run w t = .ok () w') :
    ∃ u, Acts (subject t.event) (rest (supply w t)) u ∧ u.w = w' ∧ Turned w t u := by
  have hres := (sim_dispatch hI ha).result
  rw [show (dispatch t.event).run (rest (supply w t)).w = .ok () w' from hrun] at hres
  obtain ⟨u,hpath,hw,hu⟩ := hres
  refine ⟨u, hpath, hw, hu.busy, hu.due, hu.incidents, fun f hf => ?_, hu.closed, hu.freed⟩
  have hne : t.event ≠ .accept := by
    intro he
    rw [hu.quiet he] at hf
    cases hf
  rcases path_failures hpath hf with h | h
  · cases h
  · exact ⟨hne, h⟩

theorem stopped_path (hI : Inv (rest w)) (ha : Active w t.event) {e : Stop} {w' : World}
    (hrun : run w t = .error e w') :
    ∃ u, Acts (subject t.event) (rest (supply w t)) u ∧ Cut u e w' := by
  have hres := (sim_dispatch hI ha).result
  rw [show (dispatch t.event).run (rest (supply w t)).w = .error e w' from hrun] at hres
  exact hres

end TcpFunnel.StepSimulation
