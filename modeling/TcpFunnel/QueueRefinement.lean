import Mathlib.Data.List.Induction
import TcpFunnel.Queue

/-!
# The queues are lists

A head and the elements linked behind it stand for a list. An edit of the
links is known by the cells it writes: it makes the same edit to the list, and
leaves every other queue in the same memory as it is.
-/

set_option autoImplicit false

namespace TcpFunnel.QueueRefinement
open TcpFunnel.BufferPool TcpFunnel.Links TcpFunnel.Queue

inductive Kind where
  | stailq
  | tailq
  deriving DecidableEq, Repr

variable {η ν : Type}

/-- A tail queue also leads back from each of its elements. -/
structure Queued (kind : Kind) (m : Memory η ν) (head : η) (xs : List ν) : Prop where
  nodup : xs.Nodup
  chain : Chain m.word (.first head) xs
  last : m.back (.first head) = some (lastCell (.first head) xs)
  backs : kind = .tailq → Backs m.back (.first head) xs

def Within (head : η) (xs : List ν) (d : Cell η ν) : Prop := d = .first head ∨ ∃ x ∈ xs, d = .next x

def Has (m : Memory η ν) (c : Cell η ν) : Prop := ∀ x ∈ owner c, m.live x = true

structure Frame (m m' : Memory η ν) (written : Cell η ν → Prop) : Prop where
  word : ∀ d, ¬ written d → m'.word d = m.word d
  back : ∀ d, ¬ written d → m'.back d = m.back d
  live : m'.live = m.live

variable {kind : Kind} {m m' : Memory η ν} {head head1 head2 : η} {xs ys zs : List ν} {x y z : ν}
variable {c d : Cell η ν}

@[simp] theorem has_first : Has m (.first head) := fun _ hx => by cases hx

@[simp] theorem has_next : Has m (.next x) ↔ m.live x = true := by simp [Has, owner]

theorem access_run (h : Has m c) : (access c).run m = .ok () m := by
  have hlive : ¬ ¬ ∀ x ∈ owner c, m.live x = true := not_not.mpr h
  unfold access
  simp only [EStateM.run_bind, EStateM.run_get]
  rw [if_neg hlive]
  rfl

theorem access_freed (h : ¬ Has m c) : (access c).run m = .error .useAfterFree m := by
  have hfreed : ¬ ∀ x ∈ owner c, m.live x = true := h
  unfold access
  simp only [EStateM.run_bind, EStateM.run_get]
  rw [if_pos hfreed]
  rfl

theorem getWord_run (h : Has m c) : (getWord c).run m = .ok (m.word c) m := by
  unfold getWord
  simp only [EStateM.run_bind, access_run h]
  rfl

theorem getBack_run (h : Has m c) : (getBack c).run m = .ok (m.back c) m := by
  unfold getBack
  simp only [EStateM.run_bind, access_run h]
  rfl

theorem pointee_run {α : Type} (a : α) : (pointee (some a) : Macro η ν α).run m = .ok a m := rfl

section writes

variable [DecidableEq η] [DecidableEq ν]

@[simp] theorem putWord_word (c d : Cell η ν) (v : Option ν) :
    (m.putWord c v).word d = if d = c then v else m.word d := rfl

@[simp] theorem putWord_frame (c : Cell η ν) (v : Option ν) :
    (m.putWord c v).back = m.back ∧ (m.putWord c v).live = m.live := ⟨rfl, rfl⟩

@[simp] theorem putBack_back (c d e : Cell η ν) :
    (m.putBack c d).back e = if e = c then some d else m.back e := rfl

@[simp] theorem putBack_frame (c d : Cell η ν) :
    (m.putBack c d).word = m.word ∧ (m.putBack c d).live = m.live := ⟨rfl, rfl⟩

@[simp] theorem has_putWord {v : Option ν} : Has (m.putWord c v) d ↔ Has m d := Iff.rfl

@[simp] theorem has_putBack {e : Cell η ν} : Has (m.putBack c e) d ↔ Has m d := Iff.rfl

theorem setWord_run {v : Option ν} (h : Has m c) :
    (setWord c v).run m = .ok () (m.putWord c v) := by
  unfold setWord
  simp only [EStateM.run_bind, access_run h]
  rfl

theorem setBack_run (h : Has m c) : (setBack c d).run m = .ok () (m.putBack c d) := by
  unfold setBack
  simp only [EStateM.run_bind, access_run h]
  rfl

end writes

theorem Queued.frame {written : Cell η ν → Prop} (h : Queued kind m head xs)
    (hF : Frame m m' written) (hoff : ∀ d, written d → ¬ Within head xs d) :
    Queued kind m' head xs := by
  have hfirst : ¬ written (.first head) := fun hw => hoff _ hw (.inl rfl)
  have hnext : ∀ x ∈ xs, ¬ written (.next x) := fun x hx hw => hoff _ hw (.inr ⟨x, hx, rfl⟩)
  refine ⟨h.nodup, h.chain.moved (hF.word _ hfirst) fun x hx => hF.word _ (hnext x hx), ?_, ?_⟩
  · rw [hF.back _ hfirst, h.last]
  · exact fun hkind => (h.backs hkind).congr fun x hx => hF.back _ (hnext x hx)

theorem Queued.insert (h : Queued kind m head (ys ++ zs)) (hx : x ∉ ys ++ zs)
    (hprev : m'.word (lastCell (.first head) ys) = some x)
    (hnew : m'.word (.next x) = m.word (lastCell (.first head) ys))
    (hsame : ∀ d, d ≠ lastCell (.first head) ys → d ≠ .next x → m'.word d = m.word d)
    (hlast : m'.back (.first head) = some (lastCell (.next x) zs))
    (hbacks : kind = .tailq → m'.back (.next x) = some (lastCell (.first head) ys) ∧
      (∀ z ∈ zs.head?, m'.back (.next z) = some (.next x)) ∧
      ∀ z ∈ ys ++ zs.tail, m'.back (.next z) = m.back (.next z)) :
    Queued kind m' head (ys ++ x::zs) := by
  refine ⟨?_, ?_, ?_, fun hkind => ?_⟩
  · exact (List.nodup_middle).mpr (List.nodup_cons.mpr ⟨hx, h.nodup⟩)
  · exact h.chain.insert h.nodup (by simp) hx (by simp) hprev hnew hsame
  · rw [hlast, lastCell_append]
    rfl
  · obtain ⟨hback,hhead,hrest⟩ := hbacks hkind
    exact (h.backs hkind).insert hback hhead hrest

theorem Queued.erase (h : Queued kind m head (ys ++ x::zs))
    (hprev : m'.word (lastCell (.first head) ys) = m.word (.next x))
    (hsame : ∀ d, d ≠ lastCell (.first head) ys → m'.word d = m.word d)
    (hlast : m'.back (.first head) = some (lastCell (lastCell (.first head) ys) zs))
    (hbacks : kind = .tailq →
      (∀ z ∈ zs.head?, m'.back (.next z) = some (lastCell (.first head) ys)) ∧
      ∀ z ∈ ys ++ zs.tail, m'.back (.next z) = m.back (.next z)) :
    Queued kind m' head (ys ++ zs) := by
  refine ⟨?_, ?_, ?_, fun hkind => ?_⟩
  · exact (List.nodup_cons.mp (List.nodup_middle.mp h.nodup)).2
  · exact h.chain.erase h.nodup (by simp) hprev hsame
  · rw [hlast, lastCell_append]
  · obtain ⟨hhead,hrest⟩ := hbacks hkind
    exact (h.backs hkind).erase hhead hrest

/-- An element has been linked in behind a cell. -/
structure LinkedIn (kind : Kind) (m m' : Memory η ν) (head : η) (c : Cell η ν) (x : ν) :
    Prop where
  here : m'.word c = some x
  new : m'.word (.next x) = m.word c
  words : ∀ d, d ≠ c → d ≠ .next x → m'.word d = m.word d
  last : m'.back (.first head) = if m.word c = none then some (.next x) else m.back (.first head)
  backs : kind = .tailq →
    m'.back (.next x) = some c ∧ ∀ z, m.word c = some z → m'.back (.next z) = some (.next x)
  others : ∀ d, d ≠ .first head → d ≠ .next x → (∀ z, m.word c = some z → d ≠ .next z) →
    m'.back d = m.back d
  live : m'.live = m.live

/-- What the cell held has been passed over. -/
structure LinkedOut (kind : Kind) (m m' : Memory η ν) (head : η) (c : Cell η ν) (x : ν) :
    Prop where
  here : m'.word c = m.word (.next x)
  words : ∀ d, d ≠ c → m'.word d = m.word d
  last : m'.back (.first head) = if m.word (.next x) = none then some c else m.back (.first head)
  backs : kind = .tailq → ∀ z, m.word (.next x) = some z → m'.back (.next z) = some c
  others : ∀ d, d ≠ .first head → (∀ z, m.word (.next x) = some z → d ≠ .next z) →
    m'.back d = m.back d
  live : m'.live = m.live

theorem Queued.word_at (h : Queued kind m head (ys ++ zs)) :
    m.word (lastCell (.first head) ys) = zs.head? :=
  (chain_append.mp h.chain).2.head

theorem Queued.word_next (h : Queued kind m head (ys ++ x::zs)) : m.word (.next x) = zs.head? := by
  rw [List.append_cons] at h
  simpa using h.word_at

theorem tail_apart (hnodup : (ys ++ zs).Nodup) (hx : z ∈ ys ++ zs.tail) :
    ∀ y, zs.head? = some y → (Cell.next z : Cell η ν) ≠ .next y := by
  rintro y hy ⟨rfl⟩
  cases zs with
  | nil => cases hy
  | cons z' zs =>
    cases hy
    rw [List.nodup_middle, List.nodup_cons] at hnodup
    exact hnodup.1 hx

theorem LinkedIn.queued (h : LinkedIn kind m m' head (lastCell (.first head) ys) x)
    (hq : Queued kind m head (ys ++ zs)) (hx : x ∉ ys ++ zs) :
    Queued kind m' head (ys ++ x::zs) := by
  have hword := hq.word_at
  refine hq.insert hx h.here h.new h.words ?_ fun hkind => ⟨(h.backs hkind).1, ?_, ?_⟩
  · rw [h.last, hword]
    cases zs with
    | nil => rfl
    | cons z zs => rw [if_neg (by simp), hq.last, lastCell_append, lastCell_cons, lastCell_cons]
  · exact fun z hz => (h.backs hkind).2 z (hword.trans hz)
  · intro z hz
    have hmem : z ∈ ys ++ zs := by
      rcases List.mem_append.mp hz with hz | hz
      · exact List.mem_append_left _ hz
      · exact List.mem_append_right _ (List.mem_of_mem_tail hz)
    refine h.others _ (by simp) ?_ ?_
    · rintro ⟨rfl⟩
      exact hx hmem
    · rw [hword]
      exact tail_apart hq.nodup hz

theorem LinkedOut.queued (h : LinkedOut kind m m' head (lastCell (.first head) ys) x)
    (hq : Queued kind m head (ys ++ x::zs)) : Queued kind m' head (ys ++ zs) := by
  have hword := hq.word_next
  refine hq.erase h.here h.words ?_ fun hkind => ⟨?_, ?_⟩
  · rw [h.last, hword]
    cases zs with
    | nil => rfl
    | cons z zs => rw [if_neg (by simp), hq.last, lastCell_append, lastCell_cons, lastCell_cons,
        lastCell_cons]
  · exact fun z hz => h.backs hkind z (hword.trans hz)
  · intro z hz
    have hnodup : (ys ++ zs).Nodup := (List.nodup_cons.mp (List.nodup_middle.mp hq.nodup)).2
    refine h.others _ (by simp) ?_
    rw [hword]
    exact tail_apart hnodup hz

theorem within_lastCell (h : ys ⊆ xs) : Within head xs (lastCell (.first head) ys) := by
  rcases @lastCell_cases _ _ (.first head) ys with ⟨-,hc⟩ | ⟨ys',y,rfl,hc⟩
  · exact .inl hc
  · exact .inr ⟨y, h (by simp), hc⟩

theorem LinkedIn.frame (h : LinkedIn kind m m' head (lastCell (.first head) ys) x)
    (hq : Queued kind m head (ys ++ zs)) : Frame m m' (Within head (ys ++ x::zs)) := by
  have hcell : Within head (ys ++ x::zs) (lastCell (.first head) ys) :=
    within_lastCell (List.subset_append_left _ _)
  have hnew : Within head (ys ++ x::zs) (.next x) := .inr ⟨x, by simp, rfl⟩
  refine ⟨fun d hd => h.words d ?_ ?_, fun d hd => h.others d ?_ ?_ fun z hz => ?_, h.live⟩
  · exact fun heq => hd (heq ▸ hcell)
  · exact fun heq => hd (heq ▸ hnew)
  · exact fun heq => hd (.inl heq)
  · exact fun heq => hd (heq ▸ hnew)
  · rw [hq.word_at] at hz
    have hmem := List.mem_of_mem_head? hz
    exact fun heq => hd (.inr ⟨z, by simp [hmem], heq⟩)

theorem LinkedOut.frame (h : LinkedOut kind m m' head (lastCell (.first head) ys) x)
    (hq : Queued kind m head (ys ++ x::zs)) : Frame m m' (Within head (ys ++ x::zs)) := by
  have hcell : Within head (ys ++ x::zs) (lastCell (.first head) ys) :=
    within_lastCell (List.subset_append_left _ _)
  refine ⟨fun d hd => h.words d ?_, fun d hd => h.others d ?_ fun z hz => ?_, h.live⟩
  · exact fun heq => hd (heq ▸ hcell)
  · exact fun heq => hd (.inl heq)
  · rw [hq.word_next] at hz
    have hmem := List.mem_of_mem_head? hz
    exact fun heq => hd (.inr ⟨z, by simp [hmem], heq⟩)

structure Joined (kind : Kind) (m m' : Memory η ν) (head1 head2 : η) (c : Cell η ν) : Prop where
  here : m'.word c = m.word (.first head2)
  init : m'.word (.first head2) = none ∧ m'.back (.first head2) = some (.first head2)
  words : ∀ d, d ≠ c → d ≠ .first head2 → m'.word d = m.word d
  last : m'.back (.first head1) = m.back (.first head2)
  backs : kind = .tailq → ∀ z, m.word (.first head2) = some z → m'.back (.next z) = some c
  others : ∀ d, d ≠ .first head1 → d ≠ .first head2 →
    (∀ z, m.word (.first head2) = some z → d ≠ .next z) → m'.back d = m.back d
  live : m'.live = m.live

theorem Joined.queued (h : Joined kind m m' head1 head2 (lastCell (.first head1) xs))
    (h1 : Queued kind m head1 xs) (h2 : Queued kind m head2 ys) (hne : head1 ≠ head2)
    (hys : ys ≠ []) (hapart : ∀ x ∈ xs, x ∉ ys) :
    Queued kind m' head1 (xs ++ ys) ∧ Queued kind m' head2 [] := by
  have hnodup : (xs ++ ys).Nodup :=
    h1.nodup.append h2.nodup fun x hx hy => hapart x hx hy
  have hword := h2.chain.head
  refine ⟨⟨hnodup, ?_, ?_, fun hkind => ?_⟩, ⟨List.nodup_nil, ?_, h.init.2, fun _ => trivial⟩⟩
  · exact h1.chain.join h2.chain hnodup (by simp) h.here h.words (by simpa using hne.symm)
      (by simp)
  · rw [h.last, h2.last, lastCell_append]
    cases ys with
    | nil => exact absurd rfl hys
    | cons y ys => rfl
  · refine (h1.backs hkind).join (h2.backs hkind) ?_ fun z hz => ?_
    · exact fun z hz => h.backs hkind z (hword.trans hz)
    · refine h.others _ (by simp) (by simp) ?_
      rw [hword]
      exact tail_apart hnodup hz
  · exact chain_nil.mpr h.init.1

theorem Joined.frame (h : Joined kind m m' head1 head2 (lastCell (.first head1) xs))
    (h2 : Queued kind m head2 ys) :
    Frame m m' (fun d => Within head1 xs d ∨ Within head2 ys d) := by
  have hcell : Within head1 xs (lastCell (.first head1) xs) :=
    within_lastCell (List.Subset.refl _)
  refine ⟨fun d hd => h.words d ?_ ?_, fun d hd => h.others d ?_ ?_ fun z hz => ?_, h.live⟩
  · exact fun heq => hd (.inl (heq ▸ hcell))
  · exact fun heq => hd (.inr (.inl heq))
  · exact fun heq => hd (.inl (.inl heq))
  · exact fun heq => hd (.inr (.inl heq))
  · rw [h2.chain.head] at hz
    exact fun heq => hd (.inr (.inr ⟨z, List.mem_of_mem_head? hz, heq⟩))

section observers

theorem first_run (h : Queued kind m head xs) :
    (getWord (.first head)).run m = .ok xs.head? m := by
  rw [getWord_run has_first, h.chain.head]

theorem next_run (h : Queued kind m head (ys ++ x::zs)) (hx : m.live x = true) :
    (getWord (.next x)).run m = .ok zs.head? m := by
  rw [getWord_run (has_next.mpr hx), h.word_next]

theorem empty_run (h : Queued kind m head xs) :
    (stailqEmpty head).run m = .ok (decide (xs = [])) m := by
  unfold stailqEmpty stailqFirst
  simp only [EStateM.run_bind, first_run h]
  cases xs <;> rfl

theorem stailqLast_run (h : Queued kind m head xs) :
    (stailqLast head).run m = .ok xs.getLast? m := by
  unfold stailqLast
  simp only [EStateM.run_bind, empty_run h]
  rcases List.eq_nil_or_concat xs with rfl | ⟨ys,x,rfl⟩
  · rfl
  · have hlast := h.last
    simp only [List.concat_eq_append, lastCell_snoc] at hlast
    simp [EStateM.run_bind, getBack_run, hlast]

/-- The cast finds the cell in front of the one it is given. -/
theorem wordBehind_run {ys : List ν} (h : Queued .tailq m head xs) (hys : ys <+: xs)
    (hlive : ∀ x ∈ xs, m.live x = true) :
    (wordBehind (some (lastCell (.first head) ys))).run m = .ok ys.getLast? m := by
  obtain ⟨zs,rfl⟩ := hys
  have hhas : ∀ us : List ν, us ⊆ ys ++ zs → Has m (lastCell (.first head) us) := by
    intro us hus
    rcases @within_lastCell _ _ head _ _ hus with hc | ⟨y,hy,hc⟩
    · rw [hc]
      exact has_first
    · rw [hc]
      exact has_next.mpr (hlive y hy)
  unfold wordBehind
  rcases List.eq_nil_or_concat ys with rfl | ⟨us,x,rfl⟩
  · have hlast := h.chain.2
    simp only [List.nil_append] at hlast
    simp [EStateM.run_bind, pointee_run, getBack_run, getWord_run, h.last, hhas, hlast]
  · have hback := h.backs rfl
    have hpath := h.chain.1
    simp only [List.concat_eq_append, List.append_assoc, List.singleton_append, backs_append,
      backs_cons, path_append, path_cons] at hback hpath
    have hx : m.live x = true := hlive x (by simp)
    have hcell := hhas us (by simp)
    simp [EStateM.run_bind, pointee_run, getBack_run, getWord_run, hx, hback.2.1, hpath.2.1, hcell]

theorem tailqLast_run (h : Queued .tailq m head xs) (hlive : ∀ x ∈ xs, m.live x = true) :
    (tailqLast head).run m = .ok xs.getLast? m := by
  unfold tailqLast
  simp only [EStateM.run_bind, getBack_run has_first, h.last]
  exact wordBehind_run h List.prefix_rfl hlive

theorem tailqPrev_run (h : Queued .tailq m head (ys ++ x::zs))
    (hlive : ∀ u ∈ ys ++ x::zs, m.live u = true) :
    (tailqPrev x).run m = .ok ys.getLast? m := by
  have hback := (backs_append.mp (h.backs rfl)).2.1
  unfold tailqPrev
  simp only [EStateM.run_bind, getBack_run (has_next.mpr (hlive x (by simp))), hback]
  exact wordBehind_run h (List.prefix_append ..) hlive

theorem visitFrom_run {turns : ℕ} (h : Chain m.word c xs) (hlive : ∀ x ∈ xs, m.live x = true)
    (hturns : xs.length ≤ turns) : (visitFrom turns (m.word c)).run m = .ok xs m := by
  induction xs generalizing c turns with
  | nil =>
    rw [chain_nil.mp h]
    cases turns <;> rfl
  | cons x xs ih =>
    obtain ⟨turns,rfl⟩ : ∃ k, turns = k+1 := ⟨turns-1, by simp at hturns; omega⟩
    obtain ⟨hx,hrest⟩ := chain_cons.mp h
    have hxlive : Has m (.next x) := has_next.mpr (hlive x (by simp))
    have hfewer : xs.length ≤ turns := by simpa using hturns
    have hrun := ih hrest (fun y hy => hlive y (List.mem_cons_of_mem _ hy)) hfewer
    rw [hx]
    unfold visitFrom
    simp only [EStateM.run_bind, getWord_run hxlive, hrun]
    rfl

theorem visitBack_run {turns : ℕ} (h : Queued .tailq m head (ys ++ zs))
    (hlive : ∀ x ∈ ys ++ zs, m.live x = true) (hturns : ys.length ≤ turns) :
    (visitBack turns ys.getLast?).run m = .ok ys.reverse m := by
  induction ys using List.reverseRecOn generalizing turns zs with
  | nil => cases turns <;> rfl
  | append_singleton ys x ih =>
    obtain ⟨turns,rfl⟩ : ∃ k, turns = k+1 := ⟨turns-1, by simp at hturns; omega⟩
    rw [List.append_assoc, List.singleton_append] at h hlive
    have hfewer : ys.length ≤ turns := by simpa using hturns
    have hrun := ih h hlive hfewer
    rw [List.getLast?_concat]
    unfold visitBack
    simp only [EStateM.run_bind, tailqPrev_run h hlive, hrun]
    simp

end observers

end TcpFunnel.QueueRefinement
