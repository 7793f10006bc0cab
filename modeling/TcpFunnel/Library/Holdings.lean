import Mathlib.Data.List.Perm.Basic
import Mathlib.Data.List.Nodup

/-!
# Blocks held in places

Blocks are numbered in the order in which they are handed out. A new block
goes to one of the places, and a block moves from one place to another. Every
block is then in exactly one place, once.
-/

set_option autoImplicit false

namespace TcpFunnel.Holdings

variable {π : Type*}

/-- The blocks below `n` have been handed out, and each is held once. -/
structure Exact (n : ℕ) (held : π → List ℕ) : Prop where
  once : ∀ b, b < n → ∃ x, (held x).count b = 1 ∧ ∀ y, y ≠ x → b ∉ held y
  known : ∀ x, ∀ b ∈ held x, b < n

variable {n : ℕ} {held held' : π → List ℕ} {x y : π} {b : ℕ}

theorem exact_empty : Exact 0 (fun _ : π => ([] : List ℕ)) :=
  ⟨fun _ h => absurd h (Nat.not_lt_zero _), fun _ _ h => absurd h List.not_mem_nil⟩

theorem Exact.place (h : Exact n held) (hb : b ∈ held x) :
    (held x).count b = 1 ∧ ∀ y, y ≠ x → b ∉ held y := by
  obtain ⟨z,hone,hother⟩ := h.once b (h.known x b hb)
  have hxz : x = z := by
    by_contra hne
    exact hother x hne hb
  rw [hxz]
  exact ⟨hone, hother⟩

theorem Exact.unique (h : Exact n held) (hx : b ∈ held x) (hy : b ∈ held y) : x = y := by
  by_contra hne
  exact (h.place hy).2 x hne hx

theorem Exact.nodup (h : Exact n held) (x : π) : (held x).Nodup := by
  apply List.nodup_iff_count_le_one.mpr
  intro b
  by_cases hb : b ∈ held x
  · exact Nat.le_of_eq (h.place hb).1
  · rw [List.count_eq_zero_of_not_mem hb]
    omega

theorem Exact.congr (h : Exact n held) (hperm : ∀ x, (held' x).Perm (held x)) : Exact n held' := by
  constructor
  · intro b hb
    obtain ⟨x,hone,hother⟩ := h.once b hb
    refine ⟨x, (hperm x).count_eq b ▸ hone, fun y hy hmem => ?_⟩
    exact hother y hy ((hperm y).mem_iff.mp hmem)
  · exact fun x b hb => h.known x b ((hperm x).mem_iff.mp hb)

theorem Exact.fresh (h : Exact n held) (hx : (held' x).Perm (n :: held x))
    (hother : ∀ y, y ≠ x → (held' y).Perm (held y)) : Exact (n+1) held' := by
  have hnew : ∀ y, n ∉ held y := fun y hmem => absurd (h.known y n hmem) (Nat.lt_irrefl n)
  constructor
  · intro b hb
    rcases Nat.lt_succ_iff_lt_or_eq.mp hb with hb | rfl
    · obtain ⟨z,hone,hnot⟩ := h.once b hb
      have hcount : ∀ y, (held' y).count b = (held y).count b := by
        intro y
        by_cases hy : y = x
        · rw [hy, hx.count_eq, List.count_cons_of_ne (by omega)]
        · exact (hother y hy).count_eq b
      refine ⟨z, (hcount z).trans hone, fun y hy hmem => hnot y hy ?_⟩
      rw [← List.count_pos_iff, ← hcount y]
      exact List.count_pos_iff.mpr hmem
    · refine ⟨x, ?_, fun y hy hmem => hnew y ((hother y hy).mem_iff.mp hmem)⟩
      rw [hx.count_eq, List.count_cons_self, List.count_eq_zero_of_not_mem (hnew x)]
  · intro y b hb
    by_cases hy : y = x
    · rw [hy] at hb
      rcases List.mem_cons.mp (hx.mem_iff.mp hb) with rfl | hb
      · exact Nat.lt_succ_self b
      · exact Nat.lt_succ_of_lt (h.known x b hb)
    · exact Nat.lt_succ_of_lt (h.known y b ((hother y hy).mem_iff.mp hb))

/-- A block moves from `x` to `y`. -/
theorem Exact.move (h : Exact n held) (hxy : x ≠ y) (hx : (held x).Perm (b :: held' x))
    (hy : (held' y).Perm (b :: held y))
    (hother : ∀ z, z ≠ x → z ≠ y → (held' z).Perm (held z)) : Exact n held' := by
  have hbx : b ∈ held x := hx.mem_iff.mpr (List.mem_cons_self ..)
  obtain ⟨hone,hnot⟩ := h.place hbx
  have hby : b ∉ held y := hnot y hxy.symm
  have hbx' : b ∉ held' x := by
    rw [hx.count_eq, List.count_cons_self] at hone
    exact List.count_eq_zero.mp (by omega)
  have hsub : ∀ {a z}, a ∈ held' z → a ∈ held z ∨ a = b := by
    intro a z ha
    by_cases hzx : z = x
    · rw [hzx] at ha ⊢
      exact Or.inl (hx.mem_iff.mpr (List.mem_cons_of_mem b ha))
    · by_cases hzy : z = y
      · rw [hzy] at ha ⊢
        exact (List.mem_cons.mp (hy.mem_iff.mp ha)).symm
      · exact Or.inl ((hother z hzx hzy).mem_iff.mp ha)
  constructor
  · intro a ha
    by_cases hab : a = b
    · subst hab
      refine ⟨y, ?_, fun z hz hmem => ?_⟩
      · rw [hy.count_eq, List.count_cons_self, List.count_eq_zero_of_not_mem hby]
      · by_cases hzx : z = x
        · exact hbx' (hzx ▸ hmem)
        · exact hnot z hzx ((hother z hzx hz).mem_iff.mp hmem)
    · obtain ⟨z,hz,hnz⟩ := h.once a ha
      have hcount : ∀ u, (held' u).count a = (held u).count a := by
        intro u
        by_cases hux : u = x
        · rw [hux, hx.count_eq, List.count_cons_of_ne (fun he => hab he.symm)]
        · by_cases huy : u = y
          · rw [huy, hy.count_eq, List.count_cons_of_ne (fun he => hab he.symm)]
          · exact (hother u hux huy).count_eq a
      refine ⟨z, (hcount z).trans hz, fun u hu hmem => hnz u hu ?_⟩
      exact (hsub hmem).resolve_right hab
  · intro z a ha
    rcases hsub ha with ha | rfl
    · exact h.known z a ha
    · exact h.known x a hbx

end TcpFunnel.Holdings
