import TcpFunnel.Isolation
import TcpFunnel.Library.Holdings

/-!
# The ownership of buffers

A buffer is on the free list or in a pipe of a record that is not freed. The
pool hands new buffers to the free list, `linkBuf` moves one from there to a
pipe, and `unlinkHead`, which alone calls `x_buf_free`, moves one back.
-/

set_option autoImplicit false

namespace TcpFunnel.BufferOwnership
open TcpFunnel.BufferPool TcpFunnel.Connection TcpFunnel.EventLoop TcpFunnel.Reachability
open TcpFunnel.Holdings TcpFunnel.Actions TcpFunnel.Invariants TcpFunnel.BufferInvariant
open TcpFunnel.StageInvariant TcpFunnel.StepSimulation TcpFunnel.Runs TcpFunnel.Isolation

inductive Place where
  | pool
  | pipe (c : ConnId) (p : Pipe)
  deriving DecidableEq, Repr

def held (w : World) : Place → List BufId
  | .pool => w.heap.bp.head
  | .pipe c p => w.pipes c p

/-- Every buffer obtained so far is in exactly one place, once. -/
def Owned (w : World) : Prop := Exact w.heap.bufs.next (held w)

variable {o : Option ConnId} {s t : Stage}

theorem same_owned (hO : Owned s.w) (hnext : t.w.heap.bufs.next = s.w.heap.bufs.next)
    (hhead : t.w.heap.bp.head = s.w.heap.bp.head)
    (hpipes : ∀ c p, t.w.pipes c p = s.w.pipes c p) : Owned t.w := by
  unfold Owned
  rw [hnext]
  apply hO.congr
  intro x
  cases x with
  | pool => exact .of_eq hhead
  | pipe c p => exact .of_eq (hpipes c p)

theorem owned_put (hO : Owned s.w) {c : ConnId} {r r' : XtpConn} (hr : s.w.conns.get c = some r)
    (hput : t.w.conns = s.w.conns.set c r') (hp : r'.pipe1 = r.pipe1 ∧ r'.pipe2 = r.pipe2)
    (hheap : t.w.heap = s.w.heap) : Owned t.w := by
  apply same_owned hO (by rw [hheap]) (by rw [hheap])
  apply pipes_same hr hput
  intro q
  cases q with
  | pipe1 => exact hp.1
  | pipe2 => exact hp.2

theorem setPipe_other {w w' : World} {c d : ConnId} {p q : Pipe} {r : XtpConn} {bs : List BufId}
    (hr : w.conns.get c = some r)
    (hpipes : ∀ d q, w'.pipes d q = if d = c then (r.setPipe p bs).pipe q else w.pipes d q)
    (hne : ¬ (d = c ∧ q = p)) : w'.pipes d q = w.pipes d q := by
  rw [hpipes]
  by_cases hd : d = c
  · have hq : q ≠ p := fun h => hne ⟨hd, h⟩
    rw [if_pos hd, XtpConn.setPipe_pipe, if_neg hq, hd, pipes_of hr]
  · rw [if_neg hd]

theorem linked_owned {w : World} {c : ConnId} {p : Pipe} {r : XtpConn} {b : BufId}
    {rest : List BufId} {rb : XtpBuf} (hO : Owned w) (hr : w.conns.get c = some r)
    (hb : w.heap.bp.head = b::rest) : Owned (linked w c p r b rest rb) := by
  have hpipes := pipes_put (linked_conns w c r p b rest rb)
  have hpool : (held w .pool).Perm (b :: held (linked w c p r b rest rb) .pool) := .of_eq hb
  apply Exact.move hO (x := .pool) (y := .pipe c p) (by simp) hpool
  · have hown : (linked w c p r b rest rb).pipes c p = w.pipes c p ++ [b] := by
      rw [hpipes, if_pos rfl, XtpConn.setPipe_pipe, if_pos rfl, pipes_of hr]
    exact (List.Perm.of_eq hown).trans (List.perm_append_singleton b _)
  · intro z hpool hpipe
    cases z with
    | pool => exact absurd rfl hpool
    | pipe d q => exact .of_eq (setPipe_other hr hpipes fun h => hpipe (by rw [h.1, h.2]))

theorem unlinked_owned {w : World} {c : ConnId} {p : Pipe} {r : XtpConn} {b : BufId}
    (hO : Owned w) (hr : w.conns.get c = some r) (hb : (r.pipe p).head? = some b) :
    Owned (unlinked w c p r b) := by
  have hpipes := pipes_put (unlinked_conns w c r p b)
  have hpipe : (held w (.pipe c p)).Perm (b :: held (unlinked w c p r b) (.pipe c p)) := by
    apply List.Perm.of_eq
    show w.pipes c p = b :: (unlinked w c p r b).pipes c p
    rw [hpipes, if_pos rfl, XtpConn.setPipe_pipe, if_pos rfl, pipes_of hr]
    exact (List.cons_head?_tail hb).symm
  apply Exact.move hO (x := .pipe c p) (y := .pool) (by simp) hpipe (.refl _)
  intro z hpipe hpool
  cases z with
  | pool => exact absurd rfl hpool
  | pipe d q => exact .of_eq (setPipe_other hr hpipes fun h => hpipe (by rw [h.1, h.2]))

theorem act_owned (h : Act o s t) (hI : Inv s) (hO : Owned s.w) : Owned t.w := by
  cases h with
  | answers | mallocs | countMax | stopUpcTimer | pass | doom | restClient | restUpstream
  | stopTimer | settle | answered | beginFill | leak | fill | lose | drain =>
    exact same_owned hO rfl rfl fun _ _ => rfl
  | requested => split <;> exact same_owned hO rfl rfl fun _ _ => rfl
  | @addBlock _ w b d =>
    apply Exact.fresh hO (x := .pool) (.refl _)
    intro y hy
    cases y with
    | pool => exact absurd rfl hy
    | pipe c p => exact .refl _
  | link hr hb => exact linked_owned hO hr hb
  | unlink hr hb => exact unlinked_owned hO hr hb
  | enqueue hr => exact owned_put hO hr rfl ⟨rfl, rfl⟩ rfl
  | timeOut hr => exact owned_put hO hr rfl ⟨rfl, rfl⟩ rfl
  | noSocket leaked hs hi hr => exact owned_put hO hr (abandoned_conns ..) ⟨rfl, rfl⟩ (by simp)
  | promote hs hi hr => exact owned_put hO hr (promoted_conns ..) ⟨rfl, rfl⟩ (by simp)
  | refuse hs hi hr => exact owned_put hO hr (closedUpstream_conns ..) ⟨rfl, rfl⟩ (by simp)
  | connect timeout hr => exact owned_put hO hr (connected_conns ..) ⟨rfl, rfl⟩ (by simp)
  | closeUpstream hr => exact owned_put hO hr (closedUpstream_conns ..) ⟨rfl, rfl⟩ (by simp)
  | closeClient hr => exact owned_put hO hr (closedClient_conns ..) ⟨rfl, rfl⟩ (by simp)
  | @free w fs is c r hr hs hup h1 h2 =>
    refine same_owned hO rfl rfl fun d q => ?_
    by_cases hd : d = c
    · subst hd
      rw [pipes_of hr]
      cases q <;> simp [World.pipes, XtpConn.pipe, h1, h2]
    · simp [World.pipes, hd]
  | @welcome w fs is fd =>
    apply same_owned hO (by simp) (by simp)
    intro d q
    by_cases hd : d = w.conns.next
    · subst hd
      have hnone : w.conns.get w.conns.next = none := hI.records.wellFormed _ (Nat.le_refl _)
      cases q <;> simp [World.pipes, hnone, Access.newConn, XtpConn.pipe]
    · simp [World.pipes, hd]
  | turnAway => exact same_owned hO (by simp) (by simp) (pipes_conns (by simp))

theorem act_obtained (h : Act o s t) : s.w.heap.bufs.next ≤ t.w.heap.bufs.next := by
  cases h with
  | addBlock => exact Nat.le_succ _
  | requested => split <;> exact Nat.le_refl _
  | noSocket | promote | refuse | connect | closeUpstream | closeClient | welcome | turnAway => simp
  | _ => exact Nat.le_refl _

theorem path_obtained (h : Acts o s t) : s.w.heap.bufs.next ≤ t.w.heap.bufs.next := by
  induction h with
  | refl => exact Nat.le_refl _
  | tail _ ha ih => exact Nat.le_trans ih (act_obtained ha)

theorem start_owned {w : World} (h : Start w) : Owned w := by
  obtain ⟨srvcf,mallocs,heap,-,hrun,hm,rfl⟩ := h
  obtain ⟨got,rfl⟩ := init_run hrun hm
  have hnone : Owned (listener srvcf (initialPool false)) := by
    apply exact_empty.congr
    intro x
    cases x <;> exact .refl _
  cases got with
  | false => exact hnone
  | true =>
    apply Exact.fresh hnone (x := .pool) (.refl _)
    intro y hy
    cases y with
    | pool => exact absurd rfl hy
    | pipe c p => exact .refl _

theorem reachable_owned {w : World} (h : Reachable proxy w) : Owned w :=
  reaches_along (fun s => Owned s.w) (fun _ h => start_owned h) (fun _ _ h => h)
    (fun _ _ hI hO ha => act_owned ha hI hO) (fun _ _ _ _ _ _ _ hO => hO) h

/-- A buffer that is put in front of the free list was not on it. -/
def GivesBackOnce (s t : Stage) : Prop :=
  ∀ b, t.w.heap.bp.head = b :: s.w.heap.bp.head → b ∉ s.w.heap.bp.head

theorem owned_givesBack (hO : Owned t.w) : GivesBackOnce s t := by
  intro b hb
  have hnodup : t.w.heap.bp.head.Nodup := hO.nodup .pool
  rw [hb] at hnodup
  exact (List.nodup_cons.mp hnodup).1

theorem path_owned (h : Acts o s t) (hI : Inv s) (hO : Owned s.w) :
    Owned t.w ∧
    Relation.ReflTransGen (fun m n => Act o m n ∧ Owned n.w ∧ GivesBackOnce m n) s t := by
  induction h with
  | refl => exact ⟨hO, .refl⟩
  | tail hp ha ih =>
    have hO' := act_owned ha (path_inv hp hI) ih.1
    exact ⟨hO', ih.2.tail ⟨ha, hO', owned_givesBack hO'⟩⟩

/-- When the timer of `c` has run, its record is freed and its buffers are on
the free list. -/
theorem freed_returns {w w' : World} {t : Turn} {c : ConnId} (h : Reachable proxy w)
    (he : t.event = .fire c .eTimer) (ha : Active w t.event) (hrun : run w t = .ok () w') :
    w'.conns.get c = none ∧ ∀ p, ∀ b ∈ w.pipes c p, b ∈ w'.heap.bp.head := by
  have hI := supply_inv t (reaches_inv h)
  have hO := reachable_owned h
  have hothers := (isolated h he ha hrun).1
  obtain ⟨u,hpath,rfl,hu⟩ := returned_path (reaches_inv h) ha hrun
  have hgone := hu.freed c he
  have hO' : Owned u.w := (path_owned hpath hI hO).1
  refine ⟨hgone, fun p b hb => ?_⟩
  have hlt : b < u.w.heap.bufs.next :=
    Nat.lt_of_lt_of_le (hO.known (.pipe c p) b hb) (path_obtained hpath)
  obtain ⟨x,hone,-⟩ := hO'.once b hlt
  have hmem : b ∈ held u.w x := List.count_pos_iff.mp (by omega)
  cases x with
  | pool => exact hmem
  | pipe d q =>
    have hmem : b ∈ u.w.pipes d q := hmem
    by_cases hd : d = c
    · simp [World.pipes, hd, hgone] at hmem
    · rw [(hothers d hd).1.pipes q] at hmem
      have hplace := hO.unique (x := .pipe c p) (y := .pipe d q) hb hmem
      cases hplace
      exact absurd rfl hd

/-- Every buffer obtained is in one place once, between two callbacks and after
every action of a callback; none is given back that is on the free list, and
all buffers of a record are back when it is freed. -/
theorem buffers_owned {w : World} (h : Reachable proxy w) :
    Owned w ∧
    (∀ t w', Active w t.event → run w t = .ok () w' →
      ∃ u, Relation.ReflTransGen
        (fun m n => Act (subject t.event) m n ∧ Owned n.w ∧ GivesBackOnce m n)
        (rest (supply w t)) u ∧ u.w = w') ∧
    (∀ t w' c, t.event = .fire c .eTimer → Active w t.event → run w t = .ok () w' →
      w'.conns.get c = none ∧ ∀ p, ∀ b ∈ w.pipes c p, b ∈ w'.heap.bp.head) := by
  refine ⟨reachable_owned h, fun t w' ha hrun => ?_, fun t w' c he ha hrun =>
    freed_returns h he ha hrun⟩
  obtain ⟨u,hpath,rfl,-⟩ := returned_path (reaches_inv h) ha hrun
  have hO : Owned w := reachable_owned h
  exact ⟨u, (path_owned hpath (supply_inv t (reaches_inv h)) hO).2, rfl⟩

theorem buffers_owned_oneWaits :
    ∃ w, w.heap.bp.head = [] ∧ w.pipes 0 .pipe1 = [0] ∧ w.pipes 1 .pipe1 = [1] ∧ Owned w := by
  have hplay : (play (fun _ _ => true) (listener (singlePeer 1) (initialPool true))
      oneWaits).any (fun w => decide (w.heap.bp.head = [] ∧ w.pipes 0 .pipe1 = [0] ∧
        w.pipes 1 .pipe1 = [1])) = true := by
    decide +kernel
  obtain ⟨w,hr,hw⟩ := play_reaches _ (.start (singlePeer_start 1)) hplay
  obtain ⟨hpool,h0,h1⟩ := of_decide_eq_true hw
  exact ⟨w, hpool, h0, h1, (buffers_owned hr.reachable).1⟩

end TcpFunnel.BufferOwnership
