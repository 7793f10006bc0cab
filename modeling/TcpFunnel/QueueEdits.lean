import TcpFunnel.QueueMacros

/-!
# Edits of queues that share a memory

An element is in one queue at most, is linked in only while it is in none, and
is given back only then. Under these rules a macro comes to its end, makes of
its queue the list that the same edit makes of a list, and leaves the others.
-/

set_option autoImplicit false

namespace TcpFunnel.QueueEdits
open TcpFunnel.BufferPool TcpFunnel.Links TcpFunnel.Queue TcpFunnel.QueueRefinement
open TcpFunnel.QueueMacros

variable {η ν : Type}

structure Queues (η ν : Type) where
  elems : η → List ν
  live : ν → Bool

inductive Op (η ν : Type) where
  | init (head : η)
  | insertHead (head : η) (elm : ν)
  | insertTail (head : η) (elm : ν)
  | insertAfter (head : η) (listelm elm : ν)
  | insertBefore (head : η) (listelm elm : ν)
  | remove (head : η) (elm : ν)
  | removeHead (head : η)
  | replace (head : η) (elm elm2 : ν)
  | concat (head1 head2 : η)
  | obtain (elm : ν)
  | release (elm : ν)
  deriving Repr

def Free (q : Queues η ν) (elm : ν) : Prop := q.live elm = true ∧ ∀ h, elm ∉ q.elems h

def Legal (kind : Kind) (q : Queues η ν) : Op η ν → Prop
  | .init _ => True
  | .insertHead _ elm => Free q elm
  | .insertTail _ elm => Free q elm
  | .insertAfter head listelm elm => listelm ∈ q.elems head ∧ Free q elm
  | .insertBefore head listelm elm => kind = .tailq ∧ listelm ∈ q.elems head ∧ Free q elm
  | .remove head elm => elm ∈ q.elems head
  | .removeHead head => kind = .stailq ∧ q.elems head ≠ []
  | .replace head elm elm2 => kind = .tailq ∧ elm ∈ q.elems head ∧ Free q elm2
  | .concat head1 head2 => head1 ≠ head2
  | .obtain _ => True
  | .release elm => ∀ h, elm ∉ q.elems h

section definitions

variable [DecidableEq η] [DecidableEq ν]

def spliced (elm : ν) (new : List ν) : List ν → List ν
  | [] => []
  | x::xs => if x = elm then new ++ xs else x::spliced elm new xs

def Queues.put (q : Queues η ν) (head : η) (xs : List ν) : Queues η ν :=
  { q with elems := Function.update q.elems head xs }

def Queues.setLive (q : Queues η ν) (elm : ν) (on : Bool) : Queues η ν :=
  { q with live := Function.update q.live elm on }

def Op.apply (q : Queues η ν) : Op η ν → Queues η ν
  | .init head => q.put head []
  | .insertHead head elm => q.put head (elm::q.elems head)
  | .insertTail head elm => q.put head (q.elems head ++ [elm])
  | .insertAfter head listelm elm =>
    q.put head (spliced listelm [listelm, elm] (q.elems head))
  | .insertBefore head listelm elm =>
    q.put head (spliced listelm [elm, listelm] (q.elems head))
  | .remove head elm => q.put head (spliced elm [] (q.elems head))
  | .removeHead head => q.put head (q.elems head).tail
  | .replace head elm elm2 => q.put head (spliced elm [elm2] (q.elems head))
  | .concat head1 head2 => (q.put head1 (q.elems head1 ++ q.elems head2)).put head2 []
  | .obtain elm => q.setLive elm true
  | .release elm => q.setLive elm false

def setLive (elm : ν) (on : Bool) : Macro η ν Unit :=
  modify fun m => { m with live := Function.update m.live elm on }

def Op.code (turns : ℕ) : Kind → Op η ν → Option (Macro η ν Unit)
  | .stailq, .init head => some (stailqInit head)
  | .stailq, .insertHead head elm => some (stailqInsertHead head elm)
  | .stailq, .insertTail head elm => some (stailqInsertTail head elm)
  | .stailq, .insertAfter head listelm elm => some (stailqInsertAfter head listelm elm)
  | .stailq, .insertBefore .. => none
  | .stailq, .remove head elm => some (stailqRemove turns head elm)
  | .stailq, .removeHead head => some (stailqRemoveHead head)
  | .stailq, .replace .. => none
  | .stailq, .concat head1 head2 => some (stailqConcat head1 head2)
  | .tailq, .init head => some (tailqInit head)
  | .tailq, .insertHead head elm => some (tailqInsertHead head elm)
  | .tailq, .insertTail head elm => some (tailqInsertTail head elm)
  | .tailq, .insertAfter head listelm elm => some (tailqInsertAfter head listelm elm)
  | .tailq, .insertBefore _ listelm elm => some (tailqInsertBefore listelm elm)
  | .tailq, .remove head elm => some (tailqRemove head elm)
  | .tailq, .removeHead _ => none
  | .tailq, .replace head elm elm2 => some (tailqReplace head elm elm2)
  | .tailq, .concat head1 head2 => some (tailqConcat head1 head2)
  | _, .obtain elm => some (setLive elm true)
  | _, .release elm => some (setLive elm false)

/-- The turns that the loop in `STAILQ_REMOVE` may need. -/
def Op.turns (q : Queues η ν) : Op η ν → ℕ
  | .remove head _ => (q.elems head).length
  | _ => 0

end definitions

/-- The memory holds each queue, and their elements may be accessed. -/
structure Represents (kind : Kind) (m : Memory η ν) (q : Queues η ν) : Prop where
  each : ∀ h, Queued kind m h (q.elems h)
  apart : ∀ h h' x, x ∈ q.elems h → x ∈ q.elems h' → h = h'
  members : ∀ h, ∀ x ∈ q.elems h, q.live x = true
  live : m.live = q.live

variable {kind : Kind} {m m' : Memory η ν} {q : Queues η ν} {head : η} {xs ys zs us new : List ν}
variable {x y : ν}

theorem spliced_append [DecidableEq ν] (hx : x ∉ ys) :
    spliced x new (ys ++ x::zs) = ys ++ new ++ zs := by
  induction ys with
  | nil => simp [spliced]
  | cons y ys ih =>
    have hyx : y ≠ x := fun h => hx (h ▸ List.mem_cons_self ..)
    have hrest := ih fun h => hx (List.mem_cons_of_mem _ h)
    simp [spliced, hyx, hrest]

theorem Represents.around (h : Represents kind m q) (hx : x ∈ q.elems head) :
    ∃ ys zs, q.elems head = ys ++ x::zs ∧ x ∉ ys := by
  obtain ⟨ys,zs,heq⟩ := List.append_of_mem hx
  have hnodup := (h.each head).nodup
  rw [heq, List.nodup_append] at hnodup
  exact ⟨ys, zs, heq, fun hmem => hnodup.2.2 x hmem x (by simp) rfl⟩

section cells

variable (h : Represents kind m q)
include h

theorem Represents.has_live (hx : q.live x = true) : m.live x = true := by
  rw [h.live]
  exact hx

theorem Represents.has_cell (hys : ys ⊆ q.elems head) : Has m (lastCell (.first head) ys) := by
  rcases @within_lastCell _ _ head _ _ hys with hc | ⟨y,hy,hc⟩
  · rw [hc]
    exact has_first
  · rw [hc]
    exact has_next.mpr (h.has_live (h.members head y hy))

theorem Represents.follower (heq : q.elems head = ys ++ zs) {z : ν}
    (hw : m.word (lastCell (.first head) ys) = some z) : m.live z = true ∧ z ∈ q.elems head := by
  rw [Queued.word_at (heq ▸ h.each head)] at hw
  have hz : z ∈ q.elems head := by
    rw [heq]
    exact List.mem_append_right _ (List.mem_of_mem_head? hw)
  exact ⟨h.has_live (h.members head z hz), hz⟩

end cells

theorem cell_ne_free (hys : ys ⊆ q.elems head) (hx : Free q x) :
    lastCell (.first head) ys ≠ .next x := by
  intro hcell
  rcases @within_lastCell _ _ head _ _ hys with hc | ⟨y,hy,hc⟩
  · cases hc.symm.trans hcell
  · cases hc.symm.trans hcell
    exact hx.2 head hy

section edits

variable [DecidableEq η]

@[simp] theorem put_elems (h : η) :
    (q.put head xs).elems h = if h = head then xs else q.elems h := by
  simp [Queues.put, Function.update_apply]

theorem put_self : q.put head (q.elems head) = q := by
  simp [Queues.put]

theorem Represents.put (h : Represents kind m q) (hq : Queued kind m' head xs)
    (hF : Frame m m' (Within head us)) (hus : ∀ u ∈ us, u ∈ q.elems head ∨ Free q u)
    (hxs : xs ⊆ us) : Represents kind m' (q.put head xs) := by
  have helsewhere : ∀ h', h' ≠ head → ∀ u ∈ us, u ∉ q.elems h' := by
    intro h' hne u hu hmem
    rcases hus u hu with hin | hfree
    · exact hne (h.apart h' head u hmem hin)
    · exact hfree.2 h' hmem
  refine ⟨fun h' => ?_, fun h1 h2 u hu1 hu2 => ?_, fun h' u hu => ?_, hF.live.trans h.live⟩
  · rw [put_elems]
    split
    · next heq => exact heq ▸ hq
    · next hne =>
      refine (h.each h').frame hF ?_
      rintro d (rfl | ⟨u,hu,rfl⟩) (hd | ⟨v,hv,hd⟩)
      · exact hne (by cases hd; rfl)
      · cases hd
      · cases hd
      · cases hd
        exact helsewhere h' hne u hu hv
  · rw [put_elems] at hu1 hu2
    split at hu1 <;> split at hu2
    · next heq1 heq2 => rw [heq1, heq2]
    · next hne => exact absurd hu2 (helsewhere h2 hne u (hxs hu1))
    · next hne _ => exact absurd hu1 (helsewhere h1 hne u (hxs hu2))
    · exact h.apart h1 h2 u hu1 hu2
  · rw [put_elems] at hu
    split at hu
    · rcases hus u (hxs hu) with hin | hfree
      · exact h.members head u hin
      · exact hfree.1
    · exact h.members h' u hu

theorem Represents.linkedIn (h : Represents kind m q) (heq : q.elems head = ys ++ zs)
    (hx : Free q x) (hin : LinkedIn kind m m' head (lastCell (.first head) ys) x) :
    Represents kind m' (q.put head (ys ++ x::zs)) := by
  have hq : Queued kind m head (ys ++ zs) := heq ▸ h.each head
  have hfresh : x ∉ ys ++ zs := heq ▸ hx.2 head
  refine h.put (hin.queued hq hfresh) (hin.frame hq) (fun u hu => ?_) (List.Subset.refl _)
  rw [heq]
  rcases List.mem_append.mp hu with hu | hu
  · exact .inl (List.mem_append_left _ hu)
  · rcases List.mem_cons.mp hu with rfl | hu
    · exact .inr hx
    · exact .inl (List.mem_append_right _ hu)

theorem Represents.linkedOut (h : Represents kind m q) (heq : q.elems head = ys ++ x::zs)
    (hout : LinkedOut kind m m' head (lastCell (.first head) ys) x) :
    Represents kind m' (q.put head (ys ++ zs)) := by
  have hq : Queued kind m head (ys ++ x::zs) := heq ▸ h.each head
  refine h.put (hout.queued hq) (hout.frame hq) (fun u hu => .inl (heq ▸ hu)) ?_
  intro u hu
  rcases List.mem_append.mp hu with hu | hu
  · exact List.mem_append_left _ hu
  · exact List.mem_append_right _ (List.mem_cons_of_mem _ hu)

theorem Represents.joined (h : Represents kind m q) {head1 head2 : η} (hne : head1 ≠ head2)
    (hys : q.elems head2 ≠ [])
    (hjoin : Joined kind m m' head1 head2 (lastCell (.first head1) (q.elems head1))) :
    Represents kind m' ((q.put head1 (q.elems head1 ++ q.elems head2)).put head2 []) := by
  have hapart : ∀ x ∈ q.elems head1, x ∉ q.elems head2 := fun x h1 h2 =>
    hne (h.apart head1 head2 x h1 h2)
  obtain ⟨hq1,hq2⟩ := hjoin.queued (h.each head1) (h.each head2) hne hys hapart
  have hF := hjoin.frame (h.each head2)
  have hmem : ∀ h' u, u ∈ ((q.put head1 (q.elems head1 ++ q.elems head2)).put head2 []).elems h' →
      (u ∈ q.elems h' ∧ h' ≠ head2) ∨ (h' = head1 ∧ u ∈ q.elems head2) := by
    intro h' u hu
    rw [put_elems, put_elems] at hu
    split at hu
    · cases hu
    · next hne2 =>
      split at hu
      · next heq =>
        subst heq
        rcases List.mem_append.mp hu with hu | hu
        · exact .inl ⟨hu, hne2⟩
        · exact .inr ⟨rfl, hu⟩
      · exact .inl ⟨hu, hne2⟩
  refine ⟨fun h' => ?_, fun h1 h2 u hu1 hu2 => ?_, fun h' u hu => ?_, hF.live.trans h.live⟩
  · rw [put_elems, put_elems]
    split
    · next heq => exact heq ▸ hq2
    · next hne2 =>
      split
      · next heq => exact heq ▸ hq1
      · next hne1 =>
        refine (h.each h').frame hF ?_
        rintro d (hd | hd) hd'
        · rcases hd with rfl | ⟨u,hu,rfl⟩ <;> rcases hd' with hd' | ⟨v,hv,hd'⟩ <;> cases hd'
          · exact hne1 rfl
          · exact hne1 (h.apart h' head1 u hv hu)
        · rcases hd with rfl | ⟨u,hu,rfl⟩ <;> rcases hd' with hd' | ⟨v,hv,hd'⟩ <;> cases hd'
          · exact hne2 rfl
          · exact hne2 (h.apart h' head2 u hv hu)
  · rcases hmem h1 u hu1 with ⟨hold1,hne1⟩ | ⟨hhead1,hold1⟩ <;>
      rcases hmem h2 u hu2 with ⟨hold2,hne2⟩ | ⟨hhead2,hold2⟩
    · exact h.apart h1 h2 u hold1 hold2
    · exact absurd (h.apart h1 head2 u hold1 hold2) hne1
    · exact absurd (h.apart h2 head2 u hold2 hold1) hne2
    · rw [hhead1, hhead2]
  · rcases hmem h' u hu with ⟨hu,-⟩ | ⟨-,hu⟩
    · exact h.members h' u hu
    · exact h.members head2 u hu

end edits

variable [DecidableEq η] [DecidableEq ν]

/-- The macro for an edit comes to its end and makes the edit. -/
def Steps (turns : ℕ) (kind : Kind) (m : Memory η ν) (q : Queues η ν) (op : Op η ν) : Prop :=
  ∃ code m', op.code turns kind = some code ∧ code.run m = .ok () m' ∧
    Represents kind m' (op.apply q)

section steps

variable {turns : ℕ} (h : Represents kind m q)
include h

theorem init_steps : Steps turns kind m q (.init head) := by
  obtain ⟨m',hs,ht,hq,hF⟩ := init_run kind m head
  have hrep : Represents kind m' (q.put head []) :=
    h.put hq hF (by simp) (List.Subset.refl _)
  cases kind with
  | stailq => exact ⟨_, m', rfl, hs, hrep⟩
  | tailq => exact ⟨_, m', rfl, ht, hrep⟩

theorem insertHead_steps (hx : Free q x) : Steps turns kind m q (.insertHead head x) := by
  have hlive := h.has_live hx.1
  have hnil : q.elems head = [] ++ q.elems head := rfl
  cases kind with
  | stailq =>
    obtain ⟨m',hrun,hin⟩ := stailqLink_run head has_first hlive
      (by simp)
    exact ⟨_, m', rfl, hrun, h.linkedIn hnil hx hin⟩
  | tailq =>
    obtain ⟨m',hrun,hin⟩ := tailqLink_run head has_first hlive (by simp) fun z hz =>
      ⟨(h.follower hnil hz).1, fun heq => hx.2 head (heq ▸ (h.follower hnil hz).2)⟩
    exact ⟨_, m', rfl, hrun, h.linkedIn hnil hx hin⟩

theorem insertTail_steps (hx : Free q x) : Steps turns kind m q (.insertTail head x) := by
  have hlive := h.has_live hx.1
  have hq := h.each head
  have hcell := h.has_cell (List.Subset.refl (q.elems head))
  have hne := cell_ne_free (List.Subset.refl (q.elems head)) hx
  have heq : q.elems head = q.elems head ++ [] := by simp
  cases kind with
  | stailq =>
    obtain ⟨m',hrun,hin⟩ := stailqInsertTail_run hq.last hq.chain.2 hcell hlive hne
    exact ⟨_, m', rfl, hrun, h.linkedIn heq hx hin⟩
  | tailq =>
    obtain ⟨m',hrun,hin⟩ := tailqInsertTail_run hq.last hq.chain.2 hcell hlive hne
    exact ⟨_, m', rfl, hrun, h.linkedIn heq hx hin⟩

theorem insertAfter_steps (hy : y ∈ q.elems head) (hx : Free q x) :
    Steps turns kind m q (.insertAfter head y x) := by
  obtain ⟨ys,zs,heq,hys⟩ := h.around hy
  have hlive := h.has_live hx.1
  have hylive := h.has_live (h.members head y hy)
  have hne : (Cell.next y : Cell η ν) ≠ .next x := by
    rintro ⟨rfl⟩
    exact hx.2 head hy
  have hsplit : q.elems head = (ys ++ [y]) ++ zs := by simp [heq]
  have happly : (Op.insertAfter head y x).apply q = q.put head ((ys ++ [y]) ++ x::zs) := by
    simp [Op.apply, heq, spliced_append hys]
  rw [Steps, happly]
  cases kind with
  | stailq =>
    obtain ⟨m',hrun,hin⟩ := stailqLink_run head (has_next.mpr hylive) hlive hne
    exact ⟨_, m', rfl, hrun, h.linkedIn hsplit hx (by simpa using hin)⟩
  | tailq =>
    obtain ⟨m',hrun,hin⟩ := tailqLink_run head (has_next.mpr hylive) hlive hne
      fun z hz => by
        have hz' := h.follower hsplit (by simpa using hz)
        exact ⟨hz'.1, fun heq => hx.2 head (heq ▸ hz'.2)⟩
    exact ⟨_, m', rfl, hrun, h.linkedIn hsplit hx (by simpa using hin)⟩

theorem insertBefore_steps (hkind : kind = .tailq) (hy : y ∈ q.elems head) (hx : Free q x) :
    Steps turns kind m q (.insertBefore head y x) := by
  subst hkind
  obtain ⟨ys,zs,heq,hys⟩ := h.around hy
  have hq : Queued .tailq m head (ys ++ y::zs) := heq ▸ h.each head
  have hsub : ys ⊆ q.elems head := heq ▸ List.subset_append_left ..
  have hne : y ≠ x := by
    rintro rfl
    exact hx.2 head hy
  have happly : (Op.insertBefore head y x).apply q = q.put head (ys ++ x::y::zs) := by
    simp [Op.apply, heq, spliced_append hys]
  obtain ⟨m',hrun,hin⟩ := tailqInsertBefore_run head
    (backs_append.mp (hq.backs rfl)).2.1 hq.word_at (h.has_cell hsub) (h.has_live hx.1)
    (h.has_live (h.members head y hy)) (cell_ne_free hsub hx) hne
  rw [Steps, happly]
  exact ⟨_, m', rfl, hrun, h.linkedIn heq hx hin⟩

/-- The element at the head is removed there, any other one behind the one the
loop finds. -/
theorem remove_steps (hx : x ∈ q.elems head) (hturns : (q.elems head).length ≤ turns) :
    Steps turns kind m q (.remove head x) := by
  obtain ⟨ys,zs,heq,hys⟩ := h.around hx
  have hq : Queued kind m head (ys ++ x::zs) := heq ▸ h.each head
  have hsub : ys ⊆ q.elems head := heq ▸ List.subset_append_left ..
  have hlive := h.has_live (h.members head x hx)
  have happly : (Op.remove head x).apply q = q.put head (ys ++ zs) := by
    simp [Op.apply, heq, spliced_append hys]
  rw [Steps, happly]
  cases kind with
  | tailq =>
    have hsplit : q.elems head = (ys ++ [x]) ++ zs := by simp [heq]
    obtain ⟨m',hrun,hout⟩ := tailqRemove_run head (backs_append.mp (hq.backs rfl)).2.1
      (h.has_cell hsub) hlive fun z hz => (h.follower hsplit (by simpa using hz)).1
    exact ⟨_, m', rfl, hrun, h.linkedOut heq hout⟩
  | stailq =>
    cases ys with
    | nil =>
      obtain ⟨m',hrun,hout⟩ := stailqUnlink_run head hq.word_at has_first hlive
      refine ⟨_, m', rfl, ?_, h.linkedOut heq hout⟩
      unfold stailqRemove
      simp only [EStateM.run_bind, first_run hq]
      simpa [stailqRemoveHead_eq] using hrun
    | cons y ys =>
      have hyx : y ≠ x := fun h => hys (h ▸ List.mem_cons_self ..)
      have hpath : Path m.word (.next y) (ys ++ [x]) := by
        have hall := path_append.mp hq.chain.1
        exact path_append.mpr ⟨hall.1.2, hall.2.1, trivial⟩
      have hylive : m.live y = true := h.has_live (h.members head y (hsub (by simp)))
      have hfew : ys.length < turns := by
        simp [heq] at hturns
        omega
      obtain ⟨z,hfind,hcell,hz⟩ := findBefore_run hpath
        (fun h => hys (List.mem_cons_of_mem _ h)) hylive
        (fun u hu => h.has_live (h.members head u (hsub (by simp [hu])))) hfew
      have hw : m.word (.next z) = some x := by
        rw [← hcell]
        exact hq.word_at
      obtain ⟨m',hrun,hout⟩ := stailqUnlink_run head hw (has_next.mpr hz) hlive
      refine ⟨_, m', rfl, ?_, h.linkedOut heq (by simpa [hcell] using hout)⟩
      unfold stailqRemove
      simp only [EStateM.run_bind, first_run hq]
      simpa [stailqUnlink, hyx, EStateM.run_bind, first_run hq, hfind] using hrun

theorem removeHead_steps (hkind : kind = .stailq) (hne : q.elems head ≠ []) :
    Steps turns kind m q (.removeHead head) := by
  subst hkind
  obtain ⟨x,zs,heq⟩ := List.exists_cons_of_ne_nil hne
  have hx : x ∈ q.elems head := by simp [heq]
  have hw : m.word (.first head) = some x := by simpa [heq] using (h.each head).chain.head
  obtain ⟨m',hrun,hout⟩ := stailqUnlink_run head hw has_first
    (h.has_live (h.members head x hx))
  have hnil : q.elems head = [] ++ x::zs := heq
  have happly : (Op.removeHead head).apply q = q.put head ([] ++ zs) := by simp [Op.apply, heq]
  rw [Steps, happly]
  exact ⟨_, m', rfl, hrun, h.linkedOut hnil hout⟩

theorem replace_steps (hkind : kind = .tailq) (hx : x ∈ q.elems head) (hy : Free q y) :
    Steps turns kind m q (.replace head x y) := by
  subst hkind
  obtain ⟨ys,zs,heq,hys⟩ := h.around hx
  have hq : Queued .tailq m head (ys ++ x::zs) := heq ▸ h.each head
  have hsub : ys ⊆ q.elems head := heq ▸ List.subset_append_left ..
  have hsplit : q.elems head = (ys ++ [x]) ++ zs := by simp [heq]
  have happly : (Op.replace head x y).apply q = q.put head (ys ++ y::zs) := by
    simp [Op.apply, heq, spliced_append hys]
  have hzs : x ∉ zs := by
    have hnodup := hq.nodup
    rw [List.nodup_middle, List.nodup_cons] at hnodup
    exact fun hmem => hnodup.1 (List.mem_append_right _ hmem)
  obtain ⟨m₁,m',hrun,hout,hin⟩ := tailqReplace_run head
    (backs_append.mp (hq.backs rfl)).2.1 (h.has_cell hsub) (h.has_live (h.members head x hx))
    (h.has_live hy.1) (cell_ne_free hsub hy) fun z hz => by
      have hz' := h.follower hsplit (by simpa using hz)
      rw [hq.word_next] at hz
      refine ⟨hz'.1, ?_, ?_⟩
      · exact fun heq => hzs (heq ▸ List.mem_of_mem_head? hz)
      · exact fun heq => hy.2 head (heq ▸ hz'.2)
  have hput := h.linkedOut heq hout
  have hleft : (q.put head (ys ++ zs)).elems head = ys ++ zs := by simp
  have hagain := hput.linkedIn hleft
    ⟨hy.1, fun h' => by
      rw [put_elems]
      split
      · next heq' =>
        subst heq'
        have hfresh := hy.2 h'
        rw [heq] at hfresh
        simp_all
      · exact hy.2 h'⟩ hin
  rw [Steps, happly]
  refine ⟨_, m', rfl, hrun, ?_⟩
  simpa [Queues.put] using hagain

theorem concat_steps {head1 head2 : η} (hne : head1 ≠ head2) :
    Steps turns kind m q (.concat head1 head2) := by
  have hlast1 := (h.each head1).last
  have hlast2 := (h.each head2).last
  have hword := (h.each head2).chain.head
  have hcell := h.has_cell (List.Subset.refl (q.elems head1))
  cases hys : q.elems head2 with
  | nil =>
    have hsame : (Op.concat head1 head2).apply q = q := by
      simp only [Op.apply, hys, List.append_nil, put_self]
      rw [← hys, put_self]
    rw [hys] at hword
    rw [Steps, hsame]
    cases kind with
    | stailq => exact ⟨_, m, rfl, stailqConcat_empty hword, h⟩
    | tailq => exact ⟨_, m, rfl, tailqConcat_empty hword, h⟩
  | cons y ys =>
    have hsome : m.word (.first head2) = some y := by rw [hword, hys]; rfl
    have hcd : lastCell (.first head1) (q.elems head1) ≠ .first head2 := by
      intro heq
      rcases @within_lastCell _ _ head1 _ _ (List.Subset.refl (q.elems head1)) with hc | ⟨x,-,hc⟩
      · cases hc.symm.trans heq
        exact hne rfl
      · cases hc.symm.trans heq
    have hylive : m.live y = true := h.has_live (h.members head2 y (by simp [hys]))
    cases kind with
    | stailq =>
      obtain ⟨m',hrun,hjoin⟩ := stailqConcat_run hsome hlast1 hlast2 hne hcell hcd
      exact ⟨_, m', rfl, hrun, h.joined hne (by simp [hys]) hjoin⟩
    | tailq =>
      obtain ⟨m',hrun,hjoin⟩ := tailqConcat_run hsome hlast1 hlast2 hne hcell hylive hcd
      exact ⟨_, m', rfl, hrun, h.joined hne (by simp [hys]) hjoin⟩

omit [DecidableEq η] [DecidableEq ν] in
theorem Represents.lives {live : ν → Bool}
    (hlive : ∀ h, ∀ x ∈ q.elems h, live x = q.live x) :
    Represents kind { m with live := live } { q with live := live } where
  each h' := ⟨(h.each h').nodup, (h.each h').chain, (h.each h').last, (h.each h').backs⟩
  apart := h.apart
  members h' x hx := (hlive h' x hx).trans (h.members h' x hx)
  live := rfl

omit [DecidableEq η] in
theorem setLive_steps (on : Bool) (hx : on = true ∨ ∀ h, x ∉ q.elems h) :
    ∃ m', (setLive x on : Macro η ν Unit).run m = .ok () m' ∧
      Represents kind m' (q.setLive x on) := by
  refine ⟨{ m with live := Function.update m.live x on }, rfl, ?_⟩
  rw [h.live]
  apply h.lives
  intro h' y hy
  by_cases hyx : y = x
  · subst hyx
    rw [Function.update_self]
    rcases hx with rfl | hx
    · exact (h.members h' y hy).symm
    · exact absurd hy (hx h')
  · rw [Function.update_of_ne hyx]

theorem op_steps {op : Op η ν} (hop : Legal kind q op) (hturns : op.turns q ≤ turns) :
    Steps turns kind m q op := by
  cases op with
  | init head => exact init_steps h
  | insertHead head elm => exact insertHead_steps h hop
  | insertTail head elm => exact insertTail_steps h hop
  | insertAfter head listelm elm => exact insertAfter_steps h hop.1 hop.2
  | insertBefore head listelm elm => exact insertBefore_steps h hop.1 hop.2.1 hop.2.2
  | remove head elm => exact remove_steps h hop hturns
  | removeHead head => exact removeHead_steps h hop.1 hop.2
  | replace head elm elm2 => exact replace_steps h hop.1 hop.2.1 hop.2.2
  | concat head1 head2 => exact concat_steps h hop
  | obtain elm =>
    obtain ⟨m',hrun,hrep⟩ := setLive_steps h (x := elm) true (.inl rfl)
    cases kind <;> exact ⟨_, m', rfl, hrun, hrep⟩
  | release elm =>
    obtain ⟨m',hrun,hrep⟩ := setLive_steps h (x := elm) false (.inr hop)
    cases kind <;> exact ⟨_, m', rfl, hrun, hrep⟩

end steps

end TcpFunnel.QueueEdits
