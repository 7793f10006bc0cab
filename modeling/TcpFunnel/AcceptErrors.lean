import TcpFunnel.Attempts

/-!
# Errors of `accept`

The loop around `accept` goes on after `EAGAIN`, although the listening socket
is non-blocking and nobody is there to be accepted. After any other error it
ends with the descriptor `-1`, and what follows it does not ask whether there
is a client.
-/

set_option autoImplicit false

namespace TcpFunnel.AcceptErrors
open TcpFunnel.BufferPool TcpFunnel.Connection TcpFunnel.SystemCalls TcpFunnel.Access
open TcpFunnel.EventLoop TcpFunnel.Actions TcpFunnel.StageInvariant TcpFunnel.TransferRuns
open TcpFunnel.PipeSimulation TcpFunnel.SchedulerSimulation TcpFunnel.Runs TcpFunnel.Attempts

def results (a : ℕ → AcceptAnswer) (f g : Bool) (n : ℕ) : Answers where
  accepts := (List.range n).map a
  fcntls := [f, g]

structure Created (w w' : World) (fd : ℤ) : Prop where
  conns : w'.conns = w.conns.push (newConn fd w.ln.timeout)
  loop : ∀ c k, w'.loop c k =
    if c = w.conns.next ∧ (k = .eRecv ∨ k = .eTimer) then true else w.loop c k
  cCount : w'.ln.cCount = w.ln.cCount+1

structure Unchanged (w w' : World) : Prop where
  conns : w'.conns = w.conns
  loop : w'.loop = w.loop
  cCount : w'.ln.cCount = w.ln.cCount

def Welcome (w : World) (a : ℕ → AcceptAnswer) (n : ℕ) : Prop :=
  (∃ j < n, ∃ fd, a j = .fd fd) ∧ w.ln.cCount < w.ln.srvcf.accessMax

/-- The callback returns with the first `n` results, and calls `accept` no more
once nobody is there to be accepted. It creates a record when it should, and
changes nothing otherwise. -/
structure Handled (w : World) (a : ℕ → AcceptAnswer) (f g : Bool) (n : ℕ) (w' : World) : Prop where
  returns : xAcceptCb.run (w.setSys (results a f g n)) = .ok () w'
  taken : w'.sys.accepts = []
  prompt : ∀ j, j+1 < n → a j ≠ .eagain
  created : (∃ j < n, ∃ fd, a j = .fd fd ∧ Created w w' fd) ↔ Welcome w a n
  otherwise : ¬ Welcome w a n → Unchanged w w'

variable {w : World} {a : ℕ → AcceptAnswer} {f g : Bool}

section loop

variable {l : List AcceptAnswer} {fd : ℤ}

theorem accept_none (h : w.sys.accepts = []) : accept.run w = .error .pending w := by
  unfold accept
  exact bind_error (answer_none h)

theorem accept_fd (h : w.sys.accepts = .fd fd::l) (hfd : Fresh w fd) : accept.run w =
    .ok (.fd fd) ((accepted w fd).setSys { w.sys with accepts := l }) := by
  have hrun : nextAccept.run w = .ok (.fd fd) (w.setSys { w.sys with accepts := l }) :=
    answer_some h
  have hfd' : Fresh (w.setSys { w.sys with accepts := l }) fd := hfd
  unfold accept
  rw [bind_ok hrun]
  simp only [bind_ok (get_run _)]
  rw [if_neg (not_not.mpr hfd'), accepted, if_neg (fresh_ne hfd)]
  rfl

theorem accept_fails {b : AcceptAnswer} (h : w.sys.accepts = b::l) (hb : ∀ fd, b ≠ .fd fd) :
    accept.run w = .ok b (w.setSys { w.sys with accepts := l }) := by
  have hrun : nextAccept.run w = .ok b (w.setSys { w.sys with accepts := l }) := answer_some h
  unfold accept
  rw [bind_ok hrun]
  cases b with
  | fd fd => exact absurd rfl (hb fd)
  | eagain => rfl
  | error => rfl

theorem loop_none (h : w.sys.accepts = []) (turns : ℕ) :
    ∃ w', (acceptLoop turns).run w = .error .pending w' := by
  cases turns with
  | zero => exact ⟨w, rfl⟩
  | succ turns =>
    unfold acceptLoop
    exact ⟨w, bind_error (accept_none h)⟩

theorem loop_fd (h : w.sys.accepts = .fd fd::l) (hfd : Fresh w fd) (turns : ℕ) :
    (acceptLoop (turns+1)).run w = .ok fd ((accepted w fd).setSys { w.sys with accepts := l }) := by
  unfold acceptLoop
  rw [bind_ok (accept_fd h hfd)]
  rfl

theorem loop_eagain (h : w.sys.accepts = .eagain::l) (turns : ℕ) : (acceptLoop (turns+1)).run w =
    (acceptLoop turns).run (w.setSys { w.sys with accepts := l }) := by
  conv_lhs => unfold acceptLoop
  rw [bind_ok (accept_fails h (by simp))]

theorem loop_error (h : w.sys.accepts = .error::l) (turns : ℕ) : (acceptLoop (turns+1)).run w =
    .ok (-1) ((accepted w (-1)).setSys { w.sys with accepts := l }) := by
  unfold acceptLoop
  rw [bind_ok (accept_fails h (by simp))]
  rfl

end loop

def settled (w : World) (fd : ℤ) : World :=
  if w.ln.cCount < w.ln.srvcf.accessMax then admitted (accepted w fd) fd
  else (accepted w fd).closeFd fd

theorem settled_created (fd : ℤ) (h : w.ln.cCount < w.ln.srvcf.accessMax) (t : Answers) :
    Created w ((settled w fd).setSys t) fd := by
  rw [settled, if_pos h]
  constructor
  · simp
  · intro c k
    simp
  · simp

theorem settled_unchanged (fd : ℤ) (h : ¬ w.ln.cCount < w.ln.srvcf.accessMax) (t : Answers) :
    Unchanged w ((settled w fd).setSys t) := by
  rw [settled, if_neg h]
  constructor <;> simp

theorem created_changed {w w' : World} {fd : ℤ} (h : Created w w' fd) : ¬ Unchanged w w' := by
  intro hsame
  have hcount := h.cCount
  rw [hsame.cCount] at hcount
  omega

theorem results_succ (n : ℕ) : (results a f g (n+1)).accepts =
    a 0 :: (results (fun j => a (j+1)) f g n).accepts := by
  simp only [results, List.range_succ_eq_map, List.map_cons, List.map_map]
  rfl

theorem accepted_run {fd : ℤ} {n : ℕ} {l : List AcceptAnswer}
    (hloop : (acceptLoop (n+1)).run (w.setSys (results a f g n)) =
      .ok fd ((accepted w fd).setSys { results a f g n with accepts := l })) :
    ∃ t, xAcceptCb.run (w.setSys (results a f g n)) = .ok () ((settled w fd).setSys t) ∧
      t.accepts = l := by
  set u := (accepted w fd).setSys { results a f g n with accepts := l } with hu
  have hln : u.ln = w.ln := by simp [hu]
  have hlen : (w.setSys (results a f g n)).sys.accepts.length+1 = n+1 := by simp [results]
  unfold xAcceptCb settled
  rw [bind_ok (get_run _), hlen, bind_ok hloop, bind_ok (get_run _)]
  simp only [hln]
  by_cases hmax : w.ln.cCount < w.ln.srvcf.accessMax
  · rw [if_pos hmax, if_neg (by omega), bind_ok (get_run _), bind_ok (modify_run ..)]
    have hfcntls : ({ u with conns := u.conns.push (newConn fd w.ln.timeout) } : World).sys.fcntls =
        [f, g] := rfl
    obtain ⟨rest,hblock,-⟩ := xSetNonBlock_two hfcntls
    rw [bind_ok hblock, bind_ok (evStart_run ..), bind_ok (evStart_run ..), modify_run]
    exact ⟨{ results a f g n with accepts := l, fcntls := rest }, by
      simp [hu, admitted, World.setSys, World.setWatcher, World.setLn], rfl⟩
  · rw [if_neg hmax, if_pos (by omega)]
    exact ⟨_, rfl, rfl⟩

theorem loop_stops {n : ℕ} {w' : World}
    (h : (acceptLoop (n+1)).run (w.setSys (results a f g n)) = .error .pending w') :
    xAcceptCb.run (w.setSys (results a f g n)) = .error .pending w' := by
  have hlen : (w.setSys (results a f g n)).sys.accepts.length+1 = n+1 := by simp [results]
  unfold xAcceptCb
  rw [bind_ok (get_run _), hlen, bind_error h]

theorem handled_error {n : ℕ} {w' : World} (h : Handled w a f g n w') (ha : a 0 = .error) :
    w.ln.srvcf.accessMax ≤ w.ln.cCount := by
  obtain ⟨hreturns,htaken,-,hcreated,hsame⟩ := h
  cases n with
  | zero =>
    obtain ⟨w'',hnone⟩ := loop_none (w := w.setSys (results a f g 0)) rfl 1
    rw [loop_stops hnone] at hreturns
    cases hreturns
  | succ n =>
    have haccepts := results_succ (a := a) (f := f) (g := g) n
    rw [ha] at haccepts
    have hloop := loop_error (w := w.setSys (results a f g (n+1))) haccepts (n+1)
    have hworld : accepted (w.setSys (results a f g (n+1))) (-1) =
        (accepted w (-1)).setSys (results a f g (n+1)) := rfl
    rw [hworld, setSys_setSys] at hloop
    obtain ⟨t,hrun,ht⟩ := accepted_run hloop
    rw [hrun] at hreturns
    cases hreturns
    have hone : n = 0 := by simpa [results] using ht.symm.trans htaken
    by_contra hmax
    have hroom : w.ln.cCount < w.ln.srvcf.accessMax := by omega
    have hnone : ¬ Welcome w a (n+1) := by
      rintro ⟨⟨j,hj,fd,hfd⟩,-⟩
      obtain rfl : j = 0 := by omega
      rw [ha] at hfd
      cases hfd
    exact created_changed (settled_created (-1) hroom t) (hsame hnone)

theorem handled_eagain {n : ℕ} {w' : World} (h : Handled w a f g n w') : a 0 ≠ .eagain := by
  intro ha
  obtain ⟨hreturns,-,hprompt,-,-⟩ := h
  have hfew : n ≤ 1 := by
    by_contra hn
    exact hprompt 0 (by omega) ha
  have hpending : ∃ w'', (acceptLoop (n+1)).run (w.setSys (results a f g n)) =
      .error .pending w'' := by
    cases n with
    | zero => exact loop_none rfl 1
    | succ n =>
      obtain rfl : n = 0 := by omega
      have haccepts := results_succ (a := a) (f := f) (g := g) 0
      rw [ha] at haccepts
      rw [loop_eagain haccepts]
      exact loop_none rfl 1
  obtain ⟨w'',hpending⟩ := hpending
  rw [loop_stops hpending] at hreturns
  cases hreturns

/-- The callback handles the results exactly when the first is a descriptor,
or an error that comes while there is no room anyway. -/
theorem errors_handled (hfd : ∀ fd, a 0 = .fd fd → Fresh w fd) :
    (∃ n w', Handled w a f g n w') ↔
      (∃ fd, a 0 = .fd fd) ∨ a 0 = .error ∧ w.ln.srvcf.accessMax ≤ w.ln.cCount := by
  constructor
  · intro ⟨n,w',h⟩
    cases ha : a 0 with
    | fd fd => exact Or.inl ⟨fd, rfl⟩
    | eagain => exact absurd ha (handled_eagain h)
    | error => exact Or.inr ⟨rfl, handled_error h ha⟩
  · intro h
    have haccepts := results_succ (a := a) (f := f) (g := g) 0
    have hprompt : ∀ j, j+1 < 1 → a j ≠ .eagain := by
      intro j hj
      omega
    rcases h with ⟨fd,ha⟩ | ⟨ha,hmax⟩
    · rw [ha] at haccepts
      have hfresh : Fresh (w.setSys (results a f g 1)) fd := hfd fd ha
      have hloop := loop_fd haccepts hfresh 1
      have hworld : accepted (w.setSys (results a f g 1)) fd =
          (accepted w fd).setSys (results a f g 1) := by
        simp only [accepted, if_neg (fresh_ne hfresh)]
        rfl
      rw [hworld, setSys_setSys] at hloop
      obtain ⟨t,hrun,ht⟩ := accepted_run hloop
      have hone : Welcome w a 1 ↔ w.ln.cCount < w.ln.srvcf.accessMax := by
        simp [Welcome, ha]
      refine ⟨1, _, hrun, ht, hprompt, ?_, ?_⟩
      · rw [hone]
        constructor
        · rintro ⟨_,_,_,_,hcreated⟩
          by_contra hfull
          exact created_changed hcreated (settled_unchanged fd hfull t)
        · exact fun hroom => ⟨0, Nat.one_pos, fd, ha, settled_created fd hroom t⟩
      · rw [hone]
        exact fun hfull => settled_unchanged fd hfull t
    · rw [ha] at haccepts
      have hloop := loop_error (w := w.setSys (results a f g 1)) haccepts 1
      have hworld : accepted (w.setSys (results a f g 1)) (-1) =
          (accepted w (-1)).setSys (results a f g 1) := rfl
      rw [hworld, setSys_setSys] at hloop
      obtain ⟨t,hrun,ht⟩ := accepted_run hloop
      have hsame := settled_unchanged (-1) (Int.not_lt.mpr hmax) t
      have hnone : ¬ Welcome w a 1 := fun hwelcome => absurd hwelcome.2 (Int.not_lt.mpr hmax)
      refine ⟨1, _, hrun, ht, hprompt, ?_, fun _ => hsame⟩
      constructor
      · rintro ⟨_,_,_,_,hcreated⟩
        exact absurd hsame (created_changed hcreated)
      · exact fun h => absurd h hnone

theorem errors_handled_first : ∃ n w',
    Handled (listener (singlePeer 1) (initialPool true)) (fun _ => .fd 5) true true n w' := by
  have hfd : ∀ fd, AcceptAnswer.fd 5 = .fd fd →
      Fresh (listener (singlePeer 1) (initialPool true)) fd := by
    intro fd h
    cases h
    exact ⟨by decide, rfl⟩
  exact (errors_handled hfd).mpr (Or.inl ⟨5, rfl⟩)

/-- Nobody is there, and too many files are open. -/
theorem errors_unhandled :
    ¬ (∃ n w', Handled (listener (singlePeer 1) (initialPool true))
      (fun _ => .eagain) true true n w') ∧
    ¬ (∃ n w', Handled (listener (singlePeer 1) (initialPool true))
      (fun _ => .error) true true n w') := by
  constructor
  · intro ⟨n,w',h⟩
    exact handled_eagain h rfl
  · intro ⟨n,w',h⟩
    exact absurd (handled_error h rfl) (by decide)

end TcpFunnel.AcceptErrors
