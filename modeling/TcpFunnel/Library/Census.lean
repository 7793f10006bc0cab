import Mathlib.Data.Finset.Card
import Mathlib.Data.Finset.Range
import TcpFunnel.Library.Store

/-!
# Counting the records of a store

The names of the records that have a property, and how the set changes when
one record does.
-/

set_option autoImplicit false

namespace TcpFunnel.Store

variable {α : Type*} {s : Store α} {p : α → Bool} {i : ℕ} {a b : α}

def names (s : Store α) (p : α → Bool) : Finset ℕ :=
  (Finset.range s.next).filter fun i => (s.get i).any p

theorem mem_names (hs : s.WellFormed) : i ∈ s.names p ↔ ∃ a, s.get i = some a ∧ p a = true := by
  simp only [names, Finset.mem_filter, Finset.mem_range, Option.any_eq_true_iff_get]
  constructor
  · rintro ⟨-,hsome,hp⟩
    exact ⟨_, Option.eq_some_of_isSome hsome, hp⟩
  · rintro ⟨a,ha,hp⟩
    exact ⟨hs.lt ha, by simp [ha], by simpa [ha] using hp⟩

theorem not_mem_names (hs : s.WellFormed) (ha : s.get i = some a) (hp : p a = false) :
    i ∉ s.names p := by
  rw [mem_names hs]
  rintro ⟨b,hb,hp'⟩
  cases ha.symm.trans hb
  rw [hp] at hp'
  cases hp'

theorem names_congr {t : Store α} (hs : s.WellFormed) (ht : t.WellFormed)
    (h : ∀ i, (∃ a, t.get i = some a ∧ p a = true) ↔ ∃ a, s.get i = some a ∧ p a = true) :
    t.names p = s.names p := by
  ext i
  rw [mem_names hs, mem_names ht]
  exact h i

theorem names_set (hs : s.WellFormed) (ha : s.get i = some a) (hp : p b = p a) :
    (s.set i b).names p = s.names p := by
  refine names_congr hs (hs.set (hs.lt ha) b) fun j => ?_
  by_cases hj : j = i
  · simp [hj, ha, hp]
  · simp [hj]

theorem names_set_insert (hs : s.WellFormed) (ha : s.get i = some a) (hp : p b = true) :
    (s.set i b).names p = insert i (s.names p) := by
  ext j
  rw [mem_names (hs.set (hs.lt ha) b), Finset.mem_insert, mem_names hs]
  by_cases hj : j = i
  · simp [hj, hp]
  · simp [hj]

theorem names_set_erase (hs : s.WellFormed) (ha : s.get i = some a) (hp : p b = false) :
    (s.set i b).names p = (s.names p).erase i := by
  ext j
  rw [mem_names (hs.set (hs.lt ha) b), Finset.mem_erase, mem_names hs]
  by_cases hj : j = i
  · simp [hj, hp]
  · simp [hj]

theorem names_push (hs : s.WellFormed) (hp : p b = false) : (s.push b).names p = s.names p := by
  refine names_congr hs (hs.push b) fun j => ?_
  by_cases hj : j = s.next
  · have hnone : s.get s.next = none := hs _ (Nat.le_refl _)
    simp [hj, hp, hnone]
  · simp [hj]

theorem names_free (hs : s.WellFormed) (ha : s.get i = some a) (hp : p a = false) :
    (s.free i).names p = s.names p := by
  refine names_congr hs (hs.free i) fun j => ?_
  by_cases hj : j = i
  · simp [hj, ha, hp]
  · simp [hj]

theorem card_names_free (hs : s.WellFormed) (ha : s.get i = some a) (hp : p a = true) :
    ((s.free i).names p).card+1 = (s.names p).card := by
  have herase : (s.free i).names p = (s.names p).erase i := by
    ext j
    rw [mem_names (hs.free i), Finset.mem_erase, mem_names hs]
    by_cases hj : j = i
    · simp [hj]
    · simp [hj]
  have hmem : i ∈ s.names p := (mem_names hs).mpr ⟨a, ha, hp⟩
  rw [herase, Finset.card_erase_of_mem hmem]
  have hpos : 0 < (s.names p).card := Finset.card_pos.mpr ⟨i, hmem⟩
  omega

theorem card_names_erase (hs : s.WellFormed) (ha : s.get i = some a) (hp : p a = true)
    (hb : p b = false) : ((s.set i b).names p).card+1 = (s.names p).card := by
  have hmem : i ∈ s.names p := (mem_names hs).mpr ⟨a, ha, hp⟩
  rw [names_set_erase hs ha hb, Finset.card_erase_of_mem hmem]
  have hpos : 0 < (s.names p).card := Finset.card_pos.mpr ⟨i, hmem⟩
  omega

theorem card_names_insert (hs : s.WellFormed) (ha : s.get i = some a) (hp : p a = false)
    (hb : p b = true) : ((s.set i b).names p).card = (s.names p).card+1 := by
  rw [names_set_insert hs ha hb, Finset.card_insert_of_notMem (not_mem_names hs ha hp)]

theorem card_names_push (hs : s.WellFormed) (hb : p b = true) :
    ((s.push b).names p).card = (s.names p).card+1 := by
  have hnone : s.get s.next = none := hs _ (Nat.le_refl _)
  have hinsert : (s.push b).names p = insert s.next (s.names p) := by
    ext j
    rw [mem_names (hs.push b), Finset.mem_insert, mem_names hs]
    by_cases hj : j = s.next
    · simp [hj, hb]
    · simp [hj]
  have hnew : s.next ∉ s.names p := by
    rw [mem_names hs, hnone]
    simp
  rw [hinsert, Finset.card_insert_of_notMem hnew]

end TcpFunnel.Store
