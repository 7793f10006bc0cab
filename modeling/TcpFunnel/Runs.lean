import TcpFunnel.StepSimulation
import TcpFunnel.Library.Reachability

/-!
# Runs of the proxy

A run starts when the loop is entered and takes turns. A moment of a run is
also a state in which a callback stops because it has been given only the
first of the answers to come. What every action keeps holds in every moment.
-/

set_option autoImplicit false

namespace TcpFunnel.Runs
open TcpFunnel.BufferPool TcpFunnel.Connection TcpFunnel.SystemCalls TcpFunnel.EventLoop
open TcpFunnel.Reachability TcpFunnel.Actions TcpFunnel.Invariants TcpFunnel.StageInvariant
open TcpFunnel.StepSimulation

def proxy : System World Turn where
  start := Start
  step := Step

inductive Moment : World → Prop
  | between {w : World} (h : Reachable proxy w) : Moment w
  | returned {w w' : World} {t : Turn} (h : Reachable proxy w) (ha : Active w t.event)
      (hrun : run w t = .ok () w') : Moment w'
  | stopped {w w' : World} {t : Turn} {e : Stop} (h : Reachable proxy w)
      (ha : Active w t.event) (hrun : run w t = .error e w') : Moment w'

section invariants

variable {ok : World → Turn → Prop} {w w' : World} {t : Turn}

theorem step_inv (hI : Inv (rest w)) (h : Step w t w') : Inv (rest w') := by
  obtain ⟨u,hpath,rfl,hu⟩ := returned_path hI h.1 h.2.1
  exact rest_inv (path_inv hpath (supply_inv t hI)) hu.busy

theorem reaches_inv (h : Reaches proxy ok w) : Inv (rest w) :=
  h.invariant (fun w => Inv (rest w)) (fun _ h => start_inv h) fun _ _ _ _ hI _ h => step_inv hI h

variable (P : Stage → Prop)

theorem path_along (hact : ∀ {o} (s u : Stage), Inv s → P s → Act o s u → P u)
    {o : Option ConnId} {s u : Stage} (hI : Inv s) (hs : P s) (hpath : Acts o s u) : P u := by
  induction hpath with
  | refl => exact hs
  | tail hp ha ih => exact hact _ _ (path_inv hp hI) ih ha

/-- An invariant of the stages that the answers of a turn do not enter. The
condition on the turns may be used to go from the end of a turn to the rest
between two. -/
theorem reaches_along (hstart : ∀ w, Start w → P (rest w))
    (hsupply : ∀ w t, P (rest w) → P (rest (supply w t)))
    (hact : ∀ {o} (s u : Stage), Inv s → P s → Act o s u → P u)
    (hrest : ∀ (w : World) (t : Turn) (u : Stage), ok w t → u.w.sys = {} → Inv u → Turned w t u →
      P u → P (rest u.w))
    (h : Reaches proxy ok w) : P (rest w) := by
  refine h.invariant (fun w => P (rest w)) hstart fun w t w' hr hP ho hs => ?_
  have hI := supply_inv t (reaches_inv hr)
  obtain ⟨u,hpath,rfl,hu⟩ := returned_path (reaches_inv hr) hs.1 hs.2.1
  exact hrest w t u ho hs.2.2.1 (path_inv hpath hI) hu
    (path_along P hact hI (hsupply w t hP) hpath)

/-- Every moment has the histories of a stage in which the invariant holds. -/
theorem moment_along (hstart : ∀ w, Start w → P (rest w))
    (hsupply : ∀ w t, P (rest w) → P (rest (supply w t)))
    (hact : ∀ {o} (s u : Stage), Inv s → P s → Act o s u → P u)
    (hrest : ∀ u : Stage, (u.busy = .idle ∨ u.busy = .over) → P u → P (rest u.w)) (h : Moment w) :
    ∃ u, Inv u ∧ P u ∧ w.io = u.w.io ∧ w.log = u.w.log := by
  have hreach : ∀ {w}, Reachable proxy w → P (rest w) := fun hr =>
    reaches_along P hstart hsupply hact (fun _ _ u _ _ _ ht hu => hrest u ht.busy hu) hr
  cases h with
  | between hr => exact ⟨rest w, reaches_inv hr, hreach hr, rfl, rfl⟩
  | @returned w₀ _ t hr ha hrun =>
    obtain ⟨u,hpath,rfl,-⟩ := returned_path (reaches_inv hr) ha hrun
    have hI := supply_inv t (reaches_inv hr)
    exact ⟨u, path_inv hpath hI, path_along P hact hI (hsupply w₀ t (hreach hr)) hpath, rfl, rfl⟩
  | @stopped w₀ _ t e hr ha hrun =>
    obtain ⟨u,hpath,hcut⟩ := stopped_path (reaches_inv hr) ha hrun
    have hI := supply_inv t (reaches_inv hr)
    exact ⟨u, path_inv hpath hI, path_along P hact hI (hsupply w₀ t (hreach hr)) hpath, hcut.io,
      hcut.log⟩

end invariants

def play (ok : World → Turn → Bool) : World → List Turn → Option World
  | w, [] => some w
  | w, t::ts =>
    match run w t with
    | .ok () w' =>
      if Active w t.event ∧ w'.sys = {} ∧ w'.heap.mallocs = [] ∧ ok w t then play ok w' ts
      else none
    | .error .. => none

theorem play_cons {w w' : World} {t : Turn} (h : Step w t w') (ts : List Turn) :
    play (fun _ _ => true) w (t::ts) = play (fun _ _ => true) w' ts := by
  rw [play, h.2.1]
  exact if_pos ⟨h.1, h.2.2.1, h.2.2.2, rfl⟩

theorem play_reaches {ok : World → Turn → Bool} {w : World} (ts : List Turn)
    (hw : Reaches proxy (fun w t => ok w t = true) w) {P : World → Bool}
    (h : (play ok w ts).any P = true) :
    ∃ w', Reaches proxy (fun w t => ok w t = true) w' ∧ P w' = true := by
  induction ts generalizing w with
  | nil => exact ⟨w, hw, by simpa [play] using h⟩
  | cons t ts ih =>
    unfold play at h
    cases hrun : run w t with
    | error e w' =>
      rw [hrun] at h
      cases h
    | ok a w' =>
      rw [hrun] at h
      by_cases hc : Active w t.event ∧ w'.sys = {} ∧ w'.heap.mallocs = [] ∧ ok w t
      · simp only [if_pos hc] at h
        exact ih (.step hw hc.2.2.2 ⟨hc.1, hrun, hc.2.1, hc.2.2.1⟩) h
      · simp only [if_neg hc] at h
        cases h

theorem play_step {w : World} {t : Turn} {P : World → Bool}
    (h : (play (fun _ _ => true) w [t]).any P = true) : ∃ w', Step w t w' ∧ P w' = true := by
  unfold play at h
  cases hrun : run w t with
  | error e w' =>
    rw [hrun] at h
    cases h
  | ok a w' =>
    rw [hrun] at h
    by_cases hc : Active w t.event ∧ w'.sys = {} ∧ w'.heap.mallocs = []
    · exact ⟨w', ⟨hc.1, hrun, hc.2⟩, by simpa [play, hc] using h⟩
    · simp [hc] at h

theorem play_leads {w : World} (ts : List Turn) {P : World → Bool}
    (h : (play (fun _ _ => true) w ts).any P = true) : ∃ w', Leads proxy w w' ∧ P w' = true := by
  induction ts generalizing w with
  | nil => exact ⟨w, .refl, by simpa [play] using h⟩
  | cons t ts ih =>
    unfold play at h
    cases hrun : run w t with
    | error e w' =>
      rw [hrun] at h
      cases h
    | ok a w' =>
      rw [hrun] at h
      by_cases hc : Active w t.event ∧ w'.sys = {} ∧ w'.heap.mallocs = []
      · obtain ⟨w'',hl,hP⟩ := ih (by simpa [hc] using h)
        exact ⟨w'', .head ⟨t, hc.1, hrun, hc.2⟩ hl, hP⟩
      · simp [hc] at h

def stopsFor (w : World) (t : Turn) (e : Stop) : Bool :=
  match run w t with
  | .ok .. => false
  | .error e' _ => e' = e

theorem stopsFor_run {w : World} {t : Turn} {e : Stop} (h : stopsFor w t e = true) :
    ∃ w', run w t = .error e w' := by
  unfold stopsFor at h
  cases hrun : run w t with
  | ok a w' =>
    rw [hrun] at h
    cases h
  | error e' w' =>
    rw [hrun] at h
    exact ⟨w', by rw [of_decide_eq_true h]⟩

def singlePeer (workingNumMax : ℤ) : XtpSrvconf where
  accessMax := 10
  accessTimeout := 10
  upstream := [⟨"127.0.0.1", 80, 10⟩]
  upstreamIndex := 0
  workingNumMax := workingNumMax

theorem singlePeer_start (workingNumMax : ℤ) :
    Start (listener (singlePeer workingNumMax) (initialPool true)) :=
  ⟨singlePeer workingNumMax, [true], initialPool true, rfl, rfl, rfl, rfl⟩

def comes (fd : ℤ) : Turn where
  event := .accept
  sys := { accepts := [.fd fd], fcntls := [true, true] }

/-- One byte from the client `c`, and what the kernel answers to the promotion
that may follow. -/
def asks (c : ConnId) (byte : UInt8) (connects : List ConnectAnswer) (mallocs : List Bool) :
    Turn where
  event := .fire c .eRecv
  sys := {
    recvs := [.got [byte], .eagain, .eagain]
    sockets := connects.map fun _ => some (20+c)
    fcntls := connects.flatMap fun _ => [true, true]
    connects := connects }
  mallocs := mallocs

def ends (c : ConnId) (connects : List ConnectAnswer) (mallocs : List Bool) : Turn where
  event := .fire c .upcERecv
  sys := {
    recvs := [.got []]
    sockets := connects.map fun _ => some (20+c)
    fcntls := connects.flatMap fun _ => [true, true]
    connects := connects }
  mallocs := mallocs

/-- Two clients have asked, and the one slot is taken by the first of them. -/
def oneWaits : List Turn := [comes 5, comes 6, asks 0 1 [.inProgress] [], asks 1 2 [] [true]]

/-- A client has sent one byte and its upstream is connected. -/
def oneConnected : List Turn :=
  [comes 5, asks 0 1 [.inProgress] [],
    { event := .fire 0 .upcEConnected, sys := { sockopts := [.valopt 0] } }]

/-- A client has come and asked, and no socket could be opened for it. -/
def unserved : List Turn :=
  [comes 5, { asks 0 1 [] [] with sys := { (asks 0 1 [] []).sys with sockets := [none] } }]

end TcpFunnel.Runs
