import Mathlib.Data.List.Basic
import Mathlib.Logic.Function.Basic

/-!
# Windows of a block of memory

A block is a total map from offsets to cells. Programs touch it through a
window, an offset and a length, which they read as a list or overwrite with
one. Nothing outside the overwritten window changes.
-/

set_option autoImplicit false

namespace TcpFunnel.Memory

variable {β : Type*}

def read (m : ℕ → β) (off : ℕ) : ℕ → List β
  | 0 => []
  | n+1 => m off :: read m (off+1) n

def write (m : ℕ → β) (off : ℕ) (xs : List β) : ℕ → β := fun i =>
  if off ≤ i then (xs[i-off]?).getD (m i) else m i

@[simp] theorem read_zero (m : ℕ → β) (off : ℕ) : read m off 0 = [] := rfl

@[simp] theorem read_length (m : ℕ → β) (off n : ℕ) : (read m off n).length = n := by
  induction n generalizing off with
  | zero => rfl
  | succ n ih => simp [read, ih]

@[simp] theorem write_nil (m : ℕ → β) (off : ℕ) : write m off [] = m := by
  funext i
  simp [write]

theorem read_add (m : ℕ → β) (off a b : ℕ) :
    read m off (a+b) = read m off a ++ read m (off+a) b := by
  induction a generalizing off with
  | zero => simp [read]
  | succ a ih =>
    rw [Nat.succ_add, read, ih, read, List.cons_append, Nat.add_right_comm, Nat.add_assoc]

theorem read_congr (m m' : ℕ → β) (off n : ℕ)
    (h : ∀ i, off ≤ i → i < off+n → m i = m' i) : read m off n = read m' off n := by
  induction n generalizing off with
  | zero => rfl
  | succ n ih =>
    rw [read, read, h off (Nat.le_refl _) (by omega)]
    rw [ih (off+1) (fun i hi hn => h i (by omega) (by omega))]

theorem write_before (m : ℕ → β) (off : ℕ) (xs : List β) (i : ℕ) (h : i < off) :
    write m off xs i = m i := by
  simp [write, Nat.not_le.mpr h]

theorem write_after (m : ℕ → β) (off : ℕ) (xs : List β) (i : ℕ) (h : off+xs.length ≤ i) :
    write m off xs i = m i := by
  have hnone : xs[i-off]? = none := List.getElem?_eq_none (by omega)
  simp [write, hnone]

theorem read_write_before (m : ℕ → β) (off n off' : ℕ) (xs : List β) (h : off+n ≤ off') :
    read (write m off' xs) off n = read m off n :=
  read_congr _ _ _ _ (fun _ _ hi => write_before m off' xs _ (by omega))

theorem write_cons (m : ℕ → β) (off : ℕ) (x : β) (xs : List β) :
    write m off (x::xs) = write (Function.update m off x) (off+1) xs := by
  funext i
  rcases Nat.lt_trichotomy i off with h | h | h
  · simp [write, Nat.not_le.mpr h, Nat.not_le.mpr (Nat.lt_succ_of_lt h),
      Function.update_of_ne (Nat.ne_of_lt h)]
  · subst h
    simp [write, show ¬ i+1 ≤ i by omega]
  · obtain ⟨k,rfl⟩ := Nat.exists_eq_add_of_lt h
    have h1 : off+k+1-off = k+1 := by omega
    have h2 : off+k+1-(off+1) = k := by omega
    simp [write, h1, h2, show off ≤ off+k+1 by omega, show off+1 ≤ off+k+1 by omega,
      show off+k+1 ≠ off by omega]

theorem read_write_same (m : ℕ → β) (off : ℕ) (xs : List β) :
    read (write m off xs) off xs.length = xs := by
  induction xs generalizing m off with
  | nil => rfl
  | cons x xs ih =>
    rw [List.length_cons, read, write_cons, ih, write_before _ _ _ _ (Nat.lt_succ_self off)]
    simp

theorem write_append (m : ℕ → β) (off : ℕ) (xs ys : List β) :
    write m off (xs++ys) = write (write m off xs) (off+xs.length) ys := by
  induction xs generalizing m off with
  | nil => simp
  | cons x xs ih =>
    rw [List.cons_append, write_cons, ih, write_cons, List.length_cons]
    rw [show off+(xs.length+1) = off+1+xs.length by omega]

/-- A window that grows by what is written at its end. -/
theorem read_extend (m : ℕ → β) (off n : ℕ) (xs : List β) :
    read (write m (off+n) xs) off (n+xs.length) = read m off n ++ xs := by
  rw [read_add, read_write_before m off n (off+n) xs (Nat.le_refl _), read_write_same]

/-- A window that loses what is read off its front. -/
theorem read_split (m : ℕ → β) (off a n : ℕ) (h : a ≤ n) :
    read m off n = read m off a ++ read m (off+a) (n-a) := by
  rw [← read_add, Nat.add_sub_cancel' h]

end TcpFunnel.Memory
