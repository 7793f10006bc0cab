import Mathlib.Data.Finset.Card
import Mathlib.Data.Finset.Range
import TcpFunnel.Library.Store

/-!
# A table of slots that share records

Each record has one slot as its home. A slot points to a record that is at home
there, or to the record of the common slot, which is the lowest one. A record is
lost when its home has been given to another. The slots can be cleared from the
highest one downwards, each releasing what is at home in it, and no slot is then
read after what it points to has been released.
-/

set_option autoImplicit false

namespace TcpFunnel.Slots

variable {α : Type*} (home : α → ℤ)

structure Housed (common top : ℤ) (slot : ℤ → Option ℕ) (s : Store α) : Prop where
  wellFormed : s.WellFormed
  range : ∀ {i : ℤ} {h : ℕ}, slot i = some h → common ≤ i ∧ i < top
  housed : ∀ {i : ℤ} {h : ℕ}, slot i = some h →
    ∃ r, s.get h = some r ∧ slot (home r) = some h ∧ (home r = i ∨ home r = common)

def Own (slot : ℤ → Option ℕ) (s : Store α) (i : ℤ) : Prop :=
  ∃ h r, slot i = some h ∧ s.get h = some r ∧ home r = i

def given (slot : ℤ → Option ℕ) (i : ℤ) (h : ℕ) : ℤ → Option ℕ :=
  fun j => if j = i then some h else slot j

/-- The records that are not in the slot that is their home. -/
def lost (slot : ℤ → Option ℕ) (s : Store α) : Finset ℕ :=
  (Finset.range s.next).filter fun h => (s.get h).any fun r => slot (home r) ≠ some h

/-- What is left when the slots from `n` on have been cleared. -/
def swept (slot : ℤ → Option ℕ) (s : Store α) (n : ℤ) : Store α :=
  { s with get := fun h => if (s.get h).any fun r => n ≤ home r ∧ slot (home r) = some h then none
      else s.get h }

variable {home} {common top i n : ℤ} {slot : ℤ → Option ℕ} {s : Store α} {h : ℕ} {r r' : α}

theorem mem_lost (hs : s.WellFormed) :
    h ∈ lost home slot s ↔ ∃ r, s.get h = some r ∧ slot (home r) ≠ some h := by
  simp only [lost, Finset.mem_filter, Finset.mem_range, Option.any_eq_true, decide_eq_true_eq]
  constructor
  · exact fun ⟨_,hlost⟩ => hlost
  · rintro ⟨r,hr,hne⟩
    exact ⟨hs.lt hr, r, hr, hne⟩

theorem swept_get (n : ℤ) (h : ℕ) : (swept home slot s n).get h =
    if ∃ r, s.get h = some r ∧ n ≤ home r ∧ slot (home r) = some h then none else s.get h := by
  simp only [swept, Option.any_eq_true, decide_eq_true_eq]

theorem own_set (hr : s.get h = some r) (hhome : home r' = home r) :
    Own home slot (s.set h r') i ↔ Own home slot s i := by
  unfold Own
  apply exists_congr
  intro k
  rw [Store.set_get]
  by_cases hkh : k = h
  · subst hkh
    simp [hr, hhome]
  · simp [hkh]

theorem swept_own (hslot : slot i = some h) (hr : s.get h = some r) (hi : home r = i) :
    (swept home slot s (i+1)).free h = swept home slot s i := by
  have hget : ((swept home slot s (i+1)).free h).get = (swept home slot s i).get := by
    funext k
    rw [Store.free_get, swept_get, swept_get]
    by_cases hk : k = h
    · subst hk
      rw [if_pos rfl, if_pos ⟨r, hr, Int.le_of_eq hi.symm, hi ▸ hslot⟩]
    · rw [if_neg hk]
      apply if_congr _ rfl rfl
      apply exists_congr
      intro q
      apply and_congr_right
      intro _
      constructor
      · exact fun ⟨hle,hat⟩ => ⟨by omega, hat⟩
      · rintro ⟨hle,hat⟩
        refine ⟨?_, hat⟩
        by_contra hlt
        have heq : home q = i := by omega
        rw [heq, hslot] at hat
        exact hk (Option.some.inj hat).symm
  exact congrArg (fun g => { s with get := g }) hget

theorem swept_other (hnot : ¬ Own home slot s i) :
    swept home slot s (i+1) = swept home slot s i := by
  have hget : (swept home slot s (i+1)).get = (swept home slot s i).get := by
    funext k
    rw [swept_get, swept_get]
    apply if_congr _ rfl rfl
    apply exists_congr
    intro q
    apply and_congr_right
    intro hq
    constructor
    · exact fun ⟨hle,hat⟩ => ⟨by omega, hat⟩
    · rintro ⟨hle,hat⟩
      refine ⟨?_, hat⟩
      by_contra hlt
      have heq : home q = i := by omega
      exact hnot ⟨k, q, heq ▸ hat, hq, heq⟩
  exact congrArg (fun g => { s with get := g }) hget

section housed

variable (hH : Housed home common top slot s)
include hH

theorem Housed.set (hr : s.get h = some r) (hhome : home r' = home r) :
    Housed home common top slot (s.set h r') where
  wellFormed := hH.wellFormed.set (hH.wellFormed.lt hr) r'
  range := hH.range
  housed := by
    intro i k hk
    obtain ⟨q,hq,hslot,hi⟩ := hH.housed hk
    rw [Store.set_get]
    by_cases hkh : k = h
    · subst hkh
      cases hq.symm.trans hr
      rw [if_pos rfl]
      exact ⟨r', rfl, hhome ▸ hslot, hhome ▸ hi⟩
    · rw [if_neg hkh]
      exact ⟨q, hq, hslot, hi⟩

theorem lost_set (hr : s.get h = some r) (hhome : home r' = home r) :
    lost home slot (s.set h r') = lost home slot s := by
  ext k
  rw [mem_lost (hH.set hr hhome).wellFormed, mem_lost hH.wellFormed, Store.set_get]
  by_cases hkh : k = h
  · subst hkh
    simp [hr, hhome]
  · simp [hkh]

theorem Housed.given (hlo : common < i) (hhi : i < top) (hhome : home r = i) :
    Housed home common top (given slot i s.next) (s.push r) where
  wellFormed := hH.wellFormed.push r
  range := by
    intro j k hk
    unfold Slots.given at hk
    split at hk
    next hj => exact hj ▸ ⟨Int.le_of_lt hlo, hhi⟩
    next => exact hH.range hk
  housed := by
    intro j k hk
    unfold Slots.given at hk ⊢
    split at hk
    next hj =>
      cases hk
      exact ⟨r, by simp, by rw [if_pos hhome], .inl (hhome.trans hj.symm)⟩
    next hj =>
      obtain ⟨q,hq,hslot,hor⟩ := hH.housed hk
      have hold : k ≠ s.next := Nat.ne_of_lt (hH.wellFormed.lt hq)
      have hnot : home q ≠ i := by
        intro heq
        rcases hor with hor | hor
        · exact hj (hor.symm.trans heq)
        · omega
      exact ⟨q, by simp [hold, hq], by rw [if_neg hnot]; exact hslot, hor⟩

theorem lost_given_own (hslot : slot i = some h) (hr : s.get h = some r) (hi : home r = i)
    (hhome : home r' = i) :
    lost home (given slot i s.next) (s.push r') = insert h (lost home slot s) := by
  have hlt := hH.wellFormed.lt hr
  ext k
  rw [mem_lost (hH.wellFormed.push r'), Finset.mem_insert, mem_lost hH.wellFormed]
  simp only [Store.push_get, given]
  by_cases hnew : k = s.next
  · have hnone : s.get s.next = none := hH.wellFormed _ (Nat.le_refl _)
    simp [hnew, hhome, hnone]
    omega
  · simp only [if_neg hnew]
    constructor
    · rintro ⟨q,hq,hne⟩
      by_cases hqi : home q = i
      · by_cases hkh : k = h
        · exact .inl hkh
        · right
          refine ⟨q, hq, fun hat => hkh ?_⟩
          rw [hqi, hslot] at hat
          exact (Option.some.inj hat).symm
      · rw [if_neg hqi] at hne
        exact .inr ⟨q, hq, hne⟩
    · rintro (rfl | ⟨q,hq,hne⟩)
      · refine ⟨r, hr, ?_⟩
        rw [if_pos hi]
        exact fun heq => hnew (Option.some.inj heq).symm
      · refine ⟨q, hq, ?_⟩
        split
        · exact fun heq => hnew (Option.some.inj heq).symm
        · exact hne

theorem lost_given (hnot : ¬ Own home slot s i) (hhome : home r' = i) :
    lost home (given slot i s.next) (s.push r') = lost home slot s := by
  ext k
  rw [mem_lost (hH.wellFormed.push r'), mem_lost hH.wellFormed]
  simp only [Store.push_get, given]
  by_cases hnew : k = s.next
  · have hnone : s.get s.next = none := hH.wellFormed _ (Nat.le_refl _)
    simp [hnew, hhome, hnone]
  · simp only [if_neg hnew]
    apply exists_congr
    intro q
    apply and_congr_right
    intro hq
    by_cases hqi : home q = i
    · have hne : slot (home q) ≠ some k := fun hat => hnot ⟨k, q, hqi ▸ hat, hq, hqi⟩
      rw [if_pos hqi]
      exact ⟨fun _ => hne, fun _ heq => hnew (Option.some.inj heq).symm⟩
    · rw [if_neg hqi]

theorem own_given {j : ℤ} (hhome : home r' = i) :
    Own home (given slot i s.next) (s.push r') j ↔ j = i ∨ Own home slot s j := by
  unfold Own
  simp only [Store.push_get, given]
  by_cases hj : j = i
  · simp [hj, hhome]
  · simp only [hj, if_false, false_or]
    apply exists_congr
    intro k
    apply exists_congr
    intro q
    apply and_congr_right
    intro hk
    obtain ⟨q',hq',-⟩ := hH.housed hk
    rw [if_neg (Nat.ne_of_lt (hH.wellFormed.lt hq'))]

theorem swept_top : swept home slot s top = s := by
  have hget : (swept home slot s top).get = s.get := by
    funext h
    rw [swept_get, if_neg]
    rintro ⟨r,-,hle,hslot⟩
    have := (hH.range hslot).2
    omega
  exact congrArg (fun g => { s with get := g }) hget

theorem swept_live (hslot : slot i = some h) : ∃ r, s.get h = some r ∧
    (swept home slot s (i+1)).get h = some r ∧ (home r = i ∨ home r = common) := by
  obtain ⟨r,hr,hat,hor⟩ := hH.housed hslot
  have hlo := (hH.range hslot).1
  refine ⟨r, hr, ?_, hor⟩
  rw [swept_get, if_neg, hr]
  rintro ⟨q,hq,hle,-⟩
  cases hr.symm.trans hq
  omega

/-- When all slots have been cleared, the lost records are left. -/
theorem swept_left : (∃ r, (swept home slot s common).get h = some r) ↔
    h ∈ lost home slot s := by
  rw [mem_lost hH.wellFormed, swept_get]
  constructor
  · rintro ⟨r,hr⟩
    split at hr
    next => cases hr
    next hnot =>
      refine ⟨r, hr, fun hat => hnot ⟨r, hr, (hH.range hat).1, hat⟩⟩
  · rintro ⟨r,hr,hne⟩
    refine ⟨r, ?_⟩
    rw [if_neg, hr]
    rintro ⟨q,hq,-,hat⟩
    cases hr.symm.trans hq
    exact hne hat

end housed

end TcpFunnel.Slots
