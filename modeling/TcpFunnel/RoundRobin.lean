import TcpFunnel.Runs
import TcpFunnel.Library.Cycle

/-!
# The choice of a peer

`x_upstream_choose_peer` reduces the stored index before it uses it and
increments it afterwards. Whoever calls it and whatever happens between the
calls, the peers take turns.
-/

set_option autoImplicit false

namespace TcpFunnel.RoundRobin
open TcpFunnel.BufferPool TcpFunnel.Connection TcpFunnel.Upstream TcpFunnel.EventLoop
open TcpFunnel.Reachability TcpFunnel.Actions TcpFunnel.Invariants TcpFunnel.StageInvariant
open TcpFunnel.TransferRuns TcpFunnel.PipeSimulation TcpFunnel.SchedulerSimulation TcpFunnel.Runs
open TcpFunnel.Cycle

/-- The peers chosen so far, when everything but the choices leaves the
configuration alone. -/
inductive Rotation : World → List ℕ → Prop
  | start {w : World} (h : w.ln.srvcf.upstreamIndex = 0) : Rotation w []
  | other {w w' : World} {is : List ℕ} (h : Rotation w is) (hsame : w'.ln.srvcf = w.ln.srvcf) :
      Rotation w' is
  | call {w w' : World} {is : List ℕ} {i : ℕ} (h : Rotation w is)
      (hrun : xUpstreamChoosePeer.run w = .ok i w') : Rotation w' (is ++ [i])

/-- The choices among `N` peers, and the index that is left after them. -/
structure Fair (N : ℕ) (is : List ℕ) (index : ℕ) : Prop where
  calls : ∀ j (h : j < is.length), is.get ⟨j, h⟩ = j % N
  window : ∀ m, m+N ≤ is.length → ((is.drop m).take N).Perm (List.range N)
  share : ∀ i < N, is.count i = is.length/N ∨ is.count i = (is.length+(N-1))/N
  index : index ≤ N

theorem fair_turns {N k index : ℕ} (hN : 0 < N) (h : At N k index) : Fair N (turns N k) index where
  calls := by
    intro j hj
    simp [turns]
  window := by
    intro m hm
    exact window_perm hN (by simpa using hm)
  share := by
    intro i hi
    simpa using count_turns_round hN hi
  index := h.le

variable {o : Option ConnId} {w w' : World} {is : List ℕ} {i : ℕ}

theorem chosen_call (hi : Chosen w i) : xUpstreamChoosePeer.run w = .ok i (chosen w i) := by
  have hup : w.ln.srvcf.upstream ≠ [] := List.length_pos_iff.mp (Nat.zero_lt_of_lt hi.1)
  obtain ⟨j,hj,hrun⟩ := choosePeer_run hup
  obtain rfl : i = j := hi.2.trans hj.2.symm
  exact hrun

theorem call_chosen (hrun : xUpstreamChoosePeer.run w = .ok i w') :
    Chosen w i ∧ w' = chosen w i := by
  by_cases hup : w.ln.srvcf.upstream = []
  · rw [choosePeer_empty hup] at hrun
    cases hrun
  · obtain ⟨j,hj,hchoose⟩ := choosePeer_run hup
    rw [hchoose] at hrun
    cases hrun
    exact ⟨hj, rfl⟩

theorem rotation_turns (h : Rotation w is) (hN : 0 < w.ln.srvcf.upstream.length) :
    is = turns w.ln.srvcf.upstream.length is.length ∧
    At w.ln.srvcf.upstream.length is.length w.ln.srvcf.upstreamIndex := by
  induction h with
  | start h =>
    rw [h]
    exact ⟨rfl, at_zero⟩
  | other h hsame ih =>
    rw [hsame] at hN ⊢
    exact ih hN
  | @call w w' is i h hrun ih =>
    obtain ⟨hi,rfl⟩ := call_chosen hrun
    have hsame : (chosen w i).ln.srvcf.upstream = w.ln.srvcf.upstream := rfl
    have hindex : (chosen w i).ln.srvcf.upstreamIndex =
        w.ln.srvcf.upstreamIndex % w.ln.srvcf.upstream.length + 1 := congrArg (· + 1) hi.2
    rw [hsame] at hN ⊢
    obtain ⟨hturns,hat⟩ := ih hN
    have hlast : i = is.length % w.ln.srvcf.upstream.length := hi.2.trans hat.mod
    rw [List.length_append, List.length_singleton, turns_succ, ← hturns, hindex, hlast]
    exact ⟨rfl, hat.next hN⟩

theorem init_rotation (h : Rotation w is) {c : ConnId} {rc : ℤ}
    (hrun : (xUpstreamInit c).run w = .ok rc w') :
    Rotation w' (is ++ [is.length % w.ln.srvcf.upstream.length]) ∧
    (w'.conns.get c).map (·.upcf) = some (some (is.length % w.ln.srvcf.upstream.length)) := by
  have hchosen : ∃ i, Chosen w i ∧ w'.ln.srvcf = (chosen w i).ln.srvcf ∧
      (w'.conns.get c).map (·.upcf) = some (some i) := by
    cases hr : w.conns.get c with
    | none =>
      have hfreed : (xUpstreamInit c).run w = .error .useAfterFree w := by
        unfold xUpstreamInit conn
        apply bind_error
        rw [bind_ok (get_run _)]
        simp only [hr]
        rfl
      rw [hfreed] at hrun
      cases hrun
    | some r =>
      have hinit := xUpstreamInit_run hr
      rw [hrun] at hinit
      cases hinit with
      | @abandoned i leaked t _ hi hfd hfail ht hw =>
        rw [hw]
        refine ⟨i, hi, ?_, by simp⟩
        cases leaked <;> rfl
      | @dialled i fd t _ _ hi hfd ht hrc hw =>
        rw [hw]
        exact ⟨i, hi, rfl, by simp [dialledConn]⟩
  obtain ⟨i,hi,hsame,hupcf⟩ := hchosen
  have hN : 0 < w.ln.srvcf.upstream.length := Nat.zero_lt_of_lt hi.1
  have hlast : i = is.length % w.ln.srvcf.upstream.length :=
    hi.2.trans (rotation_turns h hN).2.mod
  rw [← hlast]
  exact ⟨(h.call (chosen_call hi)).other hsame, hupcf⟩

def view (w : World) : XtpSrvconf × List ℕ := (w.ln.srvcf, w.choices)

/-- No action but the beginning of an attempt writes the configuration. -/
theorem act_view {s u : Stage} (h : Act o s u) : view u.w = view s.w ∨
    ∃ i, Chosen s.w i ∧ view u.w = view (chosen s.w i) := by
  cases h with
  | answers | mallocs | countMax | addBlock | beginFill | link | fill | lose | answered | drain
  | leak | unlink | restClient | restUpstream | enqueue | pass | connect | doom | timeOut | settle
  | stopTimer | stopUpcTimer | free => exact Or.inl rfl
  | requested =>
    left
    split <;> rfl
  | @noSocket _ w b fs is c r i leaked hs hi =>
    refine Or.inr ⟨i, hi, ?_⟩
    cases leaked <;> rfl
  | promote hs hi => exact Or.inr ⟨_, hi, rfl⟩
  | @refuse _ w b fs is c r i fd hs hi =>
    refine Or.inr ⟨i, hi, ?_⟩
    unfold closedUpstream
    split <;> rfl
  | @closeUpstream w busy fs is c r =>
    left
    unfold closedUpstream
    split <;> rfl
  | @closeClient w fs is c r =>
    left
    unfold closedClient
    split <;> rfl
  | @welcome w fs is fd =>
    left
    unfold accepted
    split <;> rfl
  | @turnAway w fs is fd =>
    left
    unfold accepted
    split <;> rfl

theorem view_rotation (h : Rotation w w.choices) (hsame : view w' = view w) :
    Rotation w' w'.choices := by
  obtain ⟨hsrvcf,hchoices⟩ := Prod.mk.inj hsame
  rw [hchoices]
  exact h.other hsrvcf

theorem act_rotation {s u : Stage} (ha : Act o s u) (h : Rotation s.w s.w.choices) :
    Rotation u.w u.w.choices := by
  rcases act_view ha with hsame | ⟨i,hi,hsame⟩
  · exact view_rotation h hsame
  · exact view_rotation (h.call (chosen_call hi)) hsame

theorem reaches_rotation (h : Reachable proxy w) : Rotation w w.choices := by
  have hrest : Rotation (rest w).w (rest w).w.choices := by
    apply reaches_along (fun s => Rotation s.w s.w.choices) _ _ _ _ h
    · intro w hw
      obtain ⟨srvcf,mallocs,heap,hindex,-,-,rfl⟩ := hw
      exact .start hindex
    · intro w t hrot
      exact hrot.other rfl
    · intro o s u _ hs ha
      exact act_rotation ha hs
    · intro w t u _ _ _ _ hu
      exact hu
  exact hrest

/-- The peers take turns in every rotation, in which a call returns whenever
there is a peer. The attempts for any clients are the calls of one, and so are
the choices made in every run. -/
theorem peers_rotate :
    (∀ w is, Rotation w is → 1 ≤ w.ln.srvcf.upstream.length →
      Fair w.ln.srvcf.upstream.length is w.ln.srvcf.upstreamIndex ∧
      ∃ w', xUpstreamChoosePeer.run w = .ok (is.length % w.ln.srvcf.upstream.length) w') ∧
    (∀ w is c rc w', Rotation w is → (xUpstreamInit c).run w = .ok rc w' →
      Rotation w' (is ++ [is.length % w.ln.srvcf.upstream.length]) ∧
      (w'.conns.get c).map (·.upcf) = some (some (is.length % w.ln.srvcf.upstream.length))) ∧
    ∀ w, Reachable proxy w → Rotation w w.choices := by
  refine ⟨?_, ?_, ?_⟩
  · intro w is h hN
    obtain ⟨hturns,hat⟩ := rotation_turns h hN
    have hchosen : Chosen w (is.length % w.ln.srvcf.upstream.length) :=
      ⟨Nat.mod_lt _ hN, hat.mod.symm⟩
    refine ⟨?_, _, chosen_call hchosen⟩
    rw [hturns]
    apply fair_turns hN
    simpa using hat
  · intro w is c rc w' h hrun
    exact init_rotation h hrun
  · intro w h
    exact reaches_rotation h

def twoPeers : World :=
  listener { singlePeer 1 with upstream := [⟨"127.0.0.1", 80, 10⟩, ⟨"127.0.0.2", 80, 10⟩] }
    (initialPool true)

theorem peers_rotate_twoPeers : ∃ w, Rotation w [0, 1, 0] ∧
    Fair 2 [0, 1, 0] w.ln.srvcf.upstreamIndex := by
  have h0 : Rotation twoPeers [] := .start rfl
  have h1 := h0.call (chosen_call (i := 0) ⟨by decide, rfl⟩)
  have h2 := h1.call (chosen_call (i := 1) ⟨by decide, rfl⟩)
  have h3 := h2.call (chosen_call (i := 0) ⟨by decide, rfl⟩)
  exact ⟨_, h3, (peers_rotate.1 _ _ h3 (by decide)).1⟩

end TcpFunnel.RoundRobin
