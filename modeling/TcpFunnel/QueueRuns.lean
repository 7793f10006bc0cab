import TcpFunnel.QueueEdits

/-!
# Runs of the queue macros

Every sequence of legal edits comes to its end, and what the macros then show
of a queue is what its list says.
-/

set_option autoImplicit false

namespace TcpFunnel.QueueRuns
open TcpFunnel.BufferPool TcpFunnel.Links TcpFunnel.Queue TcpFunnel.QueueRefinement
open TcpFunnel.QueueEdits

variable {η ν : Type} [DecidableEq η] [DecidableEq ν]
variable {kind : Kind} {m : Memory η ν} {q : Queues η ν}

def Legals (kind : Kind) : Queues η ν → List (Op η ν) → Prop
  | _, [] => True
  | q, op::ops => Legal kind q op ∧ Legals kind (op.apply q) ops

def enough : Queues η ν → List (Op η ν) → ℕ
  | _, [] => 0
  | q, op::ops => max (op.turns q) (enough (op.apply q) ops)

def applyAll (q : Queues η ν) (ops : List (Op η ν)) : Queues η ν :=
  ops.foldl (fun q op => op.apply q) q

def carryOut (kind : Kind) (turns : ℕ) : List (Op η ν) → Option (Macro η ν Unit)
  | [] => some (pure ())
  | op::ops => do
    let first ← op.code turns kind
    let rest ← carryOut kind turns ops
    return first >>= fun _ => rest

theorem ops_run (turns : ℕ) (ops : List (Op η ν)) (h : Represents kind m q)
    (hops : Legals kind q ops) (hturns : enough q ops ≤ turns) :
    ∃ code m', carryOut kind turns ops = some code ∧ code.run m = .ok () m' ∧
      Represents kind m' (applyAll q ops) := by
  induction ops generalizing m q with
  | nil => exact ⟨_, m, rfl, rfl, h⟩
  | cons op ops ih =>
    have hfirst : op.turns q ≤ turns := Nat.le_trans (Nat.le_max_left ..) hturns
    obtain ⟨first,m₁,hfirst,hrun₁,h₁⟩ := op_steps h hops.1 hfirst
    obtain ⟨rest,m',hrest,hrun,h'⟩ := ih h₁ hops.2
      (Nat.le_trans (Nat.le_max_right ..) hturns)
    refine ⟨first >>= fun _ => rest, m', ?_, ?_, h'⟩
    · simp [carryOut, hfirst, hrest]
    · simp [EStateM.run_bind, hrun₁, hrun]

def initialised (live : ν → Bool) : Memory η ν where
  word := fun _ => none
  back := fun c => some c
  live := live

omit [DecidableEq η] [DecidableEq ν] in
theorem initialised_represents (live : ν → Bool) :
    Represents kind (initialised live : Memory η ν) ⟨fun _ => [], live⟩ where
  each h := ⟨List.nodup_nil, chain_nil.mpr rfl, rfl, fun _ => trivial⟩
  apart h h' x hx := by cases hx
  members h x hx := by cases hx
  live := rfl

def threeInTwo (kind : Kind) : List (Op ℕ ℕ) :=
  [.insertTail 0 1, .insertTail 0 2, .insertHead 1 3, .insertAfter 0 1 4, .remove 0 2, .concat 0 1,
    match kind with
    | .stailq => .removeHead 0
    | .tailq => .replace 0 4 2]

theorem threeInTwo_legal (kind : Kind) :
    Legals kind ⟨fun _ => [], fun _ => true⟩ (threeInTwo kind) := by
  cases kind <;>
    simp [threeInTwo, Legals, Legal, Free, Op.apply, Queues.put, spliced, Function.update_apply] <;>
    grind

/-- Any sequence of edits that are legal, each when its turn comes. -/
theorem edits_refine (turns : ℕ) (ops : List (Op η ν)) (h : Represents kind m q)
    (hops : Legals kind q ops) (hturns : enough q ops ≤ turns) :
    ∃ code m', carryOut kind turns ops = some code ∧ code.run m = .ok () m' ∧
      Represents kind m' (applyAll q ops) :=
  ops_run turns ops h hops hturns

theorem edits_refine_three :
    ∃ code m', carryOut .tailq 3 (threeInTwo .tailq) = some code ∧
      code.run (initialised fun _ => true) = .ok () m' ∧
      Represents .tailq m' (applyAll ⟨fun _ => [], fun _ => true⟩ (threeInTwo .tailq)) :=
  edits_refine 3 _ (initialised_represents _) (threeInTwo_legal _) (by decide)

structure StailqSeen (turns : ℕ) (m : Memory η ν) (head : η) (xs : List ν) : Prop where
  first : (stailqFirst head).run m = .ok xs.head? m
  empty : (stailqEmpty head).run m = .ok (decide (xs = [])) m
  last : (stailqLast head).run m = .ok xs.getLast? m
  next : ∀ ys x zs, xs = ys ++ x::zs → (stailqNext x).run m = .ok zs.head? m
  foreach : xs.length ≤ turns → (stailqForeach turns head).run m = .ok xs m

structure TailqSeen (turns : ℕ) (m : Memory η ν) (head : η) (xs : List ν) : Prop where
  first : (tailqFirst head).run m = .ok xs.head? m
  empty : (tailqEmpty head).run m = .ok (decide (xs = [])) m
  last : (tailqLast head).run m = .ok xs.getLast? m
  next : ∀ ys x zs, xs = ys ++ x::zs → (tailqNext x).run m = .ok zs.head? m
  prev : ∀ ys x zs, xs = ys ++ x::zs → (tailqPrev x).run m = .ok ys.getLast? m
  foreach : xs.length ≤ turns → (tailqForeach turns head).run m = .ok xs m
  foreachReverse : xs.length ≤ turns → (tailqForeachReverse turns head).run m = .ok xs.reverse m

def Seen (turns : ℕ) (m : Memory η ν) (head : η) (xs : List ν) : Kind → Prop
  | .stailq => StailqSeen turns m head xs
  | .tailq => TailqSeen turns m head xs

omit [DecidableEq η] [DecidableEq ν] in
theorem represents_seen (h : Represents kind m q) (turns : ℕ) (head : η) :
    Seen turns m head (q.elems head) kind := by
  have hq := h.each head
  have hlive : ∀ x ∈ q.elems head, m.live x = true := fun x hx => h.has_live (h.members head x hx)
  have hnext : ∀ ys x zs, q.elems head = ys ++ x::zs →
      (getWord (.next x)).run m = .ok zs.head? m := by
    intro ys x zs heq
    exact next_run (heq ▸ hq) (hlive x (by simp [heq]))
  have hforeach : (q.elems head).length ≤ turns →
      (stailqForeach turns head).run m = .ok (q.elems head) m := by
    intro hturns
    unfold stailqForeach stailqFirst
    simp only [EStateM.run_bind, getWord_run has_first]
    exact visitFrom_run hq.chain hlive hturns
  cases kind with
  | stailq => exact ⟨first_run hq, empty_run hq, stailqLast_run hq, hnext, hforeach⟩
  | tailq =>
    refine ⟨first_run hq, empty_run hq, tailqLast_run hq hlive, hnext, ?_, hforeach, ?_⟩
    · intro ys x zs heq
      exact tailqPrev_run (heq ▸ hq) (heq ▸ hlive)
    · intro hturns
      unfold tailqForeachReverse
      simp only [EStateM.run_bind, tailqLast_run hq hlive]
      have hq' : Queued .tailq m head (q.elems head ++ []) := by simpa using hq
      exact visitBack_run hq' (by simpa using hlive) hturns

/-- After any such sequence the queues look like the lists. -/
theorem edits_seen (turns : ℕ) (ops : List (Op η ν)) (h : Represents kind m q)
    (hops : Legals kind q ops) (hturns : enough q ops ≤ turns) :
    ∃ code m', carryOut kind turns ops = some code ∧ code.run m = .ok () m' ∧
      ∀ turns' head, Seen turns' m' head ((applyAll q ops).elems head) kind := by
  obtain ⟨code,m',hcode,hrun,h'⟩ := ops_run turns ops h hops hturns
  exact ⟨code, m', hcode, hrun, fun turns' head => represents_seen h' turns' head⟩

theorem edits_seen_three :
    ∃ code m', carryOut .stailq 3 (threeInTwo .stailq) = some code ∧
      code.run (initialised fun _ => true) = .ok () m' ∧
      ∀ turns' head, Seen turns' m' head
        ((applyAll ⟨fun _ => [], fun _ => true⟩ (threeInTwo .stailq)).elems head) .stailq :=
  edits_seen 3 _ (initialised_represents _) (threeInTwo_legal _) (by decide)

end TcpFunnel.QueueRuns
