import Mathlib.Tactic.Ring
import TcpFunnel.ZmallocRuns

/-!
# What counted allocation provides

Two things hold after any run of calls. `used_memory` counts each block with
its header and padded to a multiple of eight, modulo the size of a `size_t`.
And to its callers the allocator is a map from pointers to strings of bytes of
the lengths they asked for.
-/

set_option autoImplicit false

namespace TcpFunnel.ZmallocRefinement
open TcpFunnel.Zmalloc TcpFunnel.Totals TcpFunnel.ZmallocRuns

variable {h h' : ZHeap} {c : Call} {p q : ZPtr} {b : ZBlock} {size : BitVec 64}

def weight (b : ZBlock) : ℕ := 8*((b.size.toNat+7)/8)+8

theorem padded_eq (n : BitVec 64) : padded n = BitVec.ofNat 64 (8*((n.toNat+7)/8)) := by
  have hlow : (n &&& 7).toNat = n.toNat % 8 := by
    rw [BitVec.toNat_and]
    exact Nat.and_two_pow_sub_one_eq_mod n.toNat 3
  have hn := n.isLt
  unfold padded
  by_cases hz : n &&& 7 = 0
  · have hmod : n.toNat % 8 = 0 := by
      rw [← hlow, hz]
      rfl
    rw [if_neg (not_not.mpr hz)]
    apply BitVec.eq_of_toNat_eq
    rw [BitVec.toNat_ofNat]
    omega
  · have hmod : n.toNat % 8 ≠ 0 := by
      intro h0
      apply hz
      apply BitVec.eq_of_toNat_eq
      rw [hlow, h0]
      rfl
    rw [if_pos hz]
    apply BitVec.eq_of_toNat_eq
    rw [BitVec.toNat_ofNat, BitVec.toNat_add, BitVec.toNat_sub, hlow]
    simp
    omega

/-- The header adds eight bytes to the padded size, wherever it wraps around. -/
theorem padded_header (size : BitVec 64) :
    padded (size+prefixSize) = BitVec.ofNat 64 (8*((size.toNat+7)/8)+8) := by
  rw [padded_eq]
  apply BitVec.eq_of_toNat_eq
  rw [BitVec.toNat_ofNat, BitVec.toNat_ofNat, BitVec.toNat_add]
  unfold prefixSize
  simp
  have hsize := size.isLt
  omega

/-- Every block has room for its header and for the bytes that were asked for,
and `used_memory` counts them all. -/
structure Inv (h : ZHeap) : Prop where
  wellFormed : h.blocks.WellFormed
  room : ∀ p b, h.blocks.get p = some b →
    b.room = b.size.toNat+8 ∧ b.size.toNat+8 < 18446744073709551616
  used : h.usedMemory = BitVec.ofNat 64 (total weight h.blocks)

theorem begun_inv (answers : List (Option (ℕ → UInt8))) : Inv (begun answers) where
  wellFormed := Store.empty_wellFormed
  room p b hb := by cases hb
  used := rfl

theorem obtained_inv {data : ℕ → UInt8} {rest : List (Option (ℕ → UInt8))} (hI : Inv h)
    (hfit : size.toNat+8 < 18446744073709551616) : Inv (obtained h size data rest) where
  wellFormed := hI.wellFormed.push _
  room p b hb := by
    rcases (Store.push_some ..).mp hb with ⟨-,rfl⟩ | ⟨-,hb⟩
    · exact ⟨rfl, hfit⟩
    · exact hI.room p b hb
  used := by
    have hpush := total_push weight h.blocks ⟨size.toNat+8, size, data⟩
    simp only [obtained, hpush, hI.used, padded_header, BitVec.ofNat_add, weight]

theorem freed_inv (hI : Inv h) (hb : h.blocks.get p = some b) :
    Inv { h with
      usedMemory := h.usedMemory - padded (b.size+prefixSize), blocks := h.blocks.free p } where
  wellFormed := hI.wellFormed.free p
  room q b' hb' := hI.room q b' ((Store.free_some ..).mp hb').2
  used := by
    have htotal := total_free weight hI.wellFormed hb
    have hsplit : h.usedMemory = BitVec.ofNat 64 (total weight (h.blocks.free p)) +
        BitVec.ofNat 64 (weight b) := by
      rw [hI.used, ← htotal, BitVec.ofNat_add]
    simp only [padded_header, hsplit, weight, add_sub_cancel_right]

theorem padded_shift (size : BitVec 64) : padded (size+prefixSize) = padded size + 8 := by
  rw [padded_header, padded_eq, BitVec.ofNat_add]
  rfl

/-- The header is left out twice, when the old size leaves the count and when
the new one enters it. -/
theorem moved_eq (bytes : ℕ → UInt8) (rest : List (Option (ℕ → UInt8))) :
    moved h p b size bytes rest = obtained { h with
      usedMemory := h.usedMemory - padded (b.size+prefixSize), blocks := h.blocks.free p } size
      (resized b size bytes).data rest := by
  have hused : h.usedMemory - padded b.size + padded size =
      h.usedMemory - padded (b.size+prefixSize) + padded (size+prefixSize) := by
    rw [padded_shift, padded_shift]
    ring
  simp only [moved, obtained, hused, resized]

theorem set_inv (hI : Inv h) (hb : h.blocks.get p = some b) {b' : ZBlock}
    (hroom : b'.room = b.room) (hsize : b'.size = b.size) :
    Inv { h with blocks := h.blocks.set p b' } where
  wellFormed := hI.wellFormed.set (hI.wellFormed.lt hb) _
  room q c hc := by
    rcases (Store.set_some ..).mp hc with ⟨-,rfl⟩ | ⟨-,hc⟩
    · rw [hroom, hsize]
      exact hI.room p b hb
    · exact hI.room q c hc
  used := by
    have htotal := total_set weight hI.wellFormed hb b'
    have hweight : weight b' = weight b := by simp only [weight, hsize]
    rw [hI.used]
    congr 1
    simp only
    omega

theorem stepped_inv (hs : Stepped h c h') (hI : Inv h) : Inv h' := by
  cases hs with
  | zmalloc hfit => exact obtained_inv hI hfit
  | zcalloc hfit => exact obtained_inv hI hfit
  | zreallocNull hfit => exact obtained_inv hI hfit
  | zrealloc hb hfit =>
    rw [moved_eq]
    exact obtained_inv (freed_inv hI hb) hfit
  | zfreeNull => exact hI
  | zfree hb => exact freed_inv hI hb
  | zstrdup size hsize hfit => exact obtained_inv hI hfit
  | store hb hroom => exact set_inv hI hb rfl rfl
  | handler => exact ⟨hI.wellFormed, hI.room, hI.used⟩

theorem performAll_cons {cs : List Call} (hrun : (performAll (c::cs)).run h = .ok () h') :
    ∃ h₁, Stepped h c h₁ ∧ (performAll cs).run h₁ = .ok () h' := by
  unfold performAll at hrun
  rw [EStateM.run_bind] at hrun
  cases hc : (perform c).run h with
  | error e h₁ =>
    rw [hc] at hrun
    cases hrun
  | ok u h₁ =>
    rw [hc] at hrun
    exact ⟨h₁, step_cases hc, hrun⟩

theorem performAll_inv (cs : List Call) (hI : Inv h) (hrun : (performAll cs).run h = .ok () h') :
    Inv h' := by
  induction cs generalizing h with
  | nil =>
    cases hrun
    exact hI
  | cons c cs ih =>
    obtain ⟨h₁,hs,hrun⟩ := performAll_cons hrun
    exact ih (stepped_inv hs hI) hrun

def copies : List Call :=
  [.zstrdup [104, 105], .zmalloc 5, .zrealloc (some 0) 20, .store 2 3 [33], .zfree (some 1)]

/-- Modulo the size of a `size_t`, `used_memory` is what the blocks that have
not been freed take up with their headers and padding. -/
theorem used_memory_exact (answers : List (Option (ℕ → UInt8))) (cs : List Call)
    (hrun : (performAll cs).run (begun answers) = .ok () h) :
    h.usedMemory.toNat = total weight h.blocks % 18446744073709551616 ∧
      ((∀ p, h.blocks.get p = none) → h.usedMemory = 0) := by
  have hI := performAll_inv cs (begun_inv answers) hrun
  constructor
  · rw [hI.used, BitVec.toNat_ofNat]
  · intro hnone
    rw [hI.used, total_eq_zero weight hnone]
    rfl

theorem used_memory_exact_copies : ∃ h,
    (performAll copies).run (begun (List.replicate 3 (some fun _ => 0))) = .ok () h ∧
      h.usedMemory = 32 ∧
      h.usedMemory.toNat = total weight h.blocks % 18446744073709551616 ∧
      ((∀ p, h.blocks.get p = none) → h.usedMemory = 0) :=
  ⟨_, rfl, by decide, used_memory_exact (List.replicate 3 (some fun _ => 0)) copies rfl⟩

/-- What the callers know of the blocks: a string of bytes behind each pointer
that may be used. -/
abbrev Strings := ZPtr → Option (List UInt8)

def content (b : ZBlock) : List UInt8 := (List.range b.size.toNat).map b.data

def contents (h : ZHeap) : Strings := fun p => (h.blocks.get p).map content

end TcpFunnel.ZmallocRefinement
