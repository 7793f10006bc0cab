import Mathlib.Data.List.Basic

/-!
# Files that are only appended to

The pieces that were appended, in order and each with the name of its file. The
contents of a file are its own pieces, and a bound on every file is kept by an
append that leaves its file within the bound.
-/

set_option autoImplicit false

namespace TcpFunnel.Appends

variable {κ α : Type*} [DecidableEq κ]

def contents (log : List (κ × List α)) (name : κ) : List α :=
  (log.filter (fun piece => piece.1 = name)).flatMap (fun piece => piece.2)

def Bounded (most : ℕ) (log : List (κ × List α)) : Prop :=
  ∀ name, (contents log name).length ≤ most

variable {log later : List (κ × List α)} {name other : κ} {piece : List α} {most : ℕ}

@[simp] theorem contents_nil : contents ([] : List (κ × List α)) name = [] := rfl

theorem contents_append :
    contents (log ++ later) name = contents log name ++ contents later name := by
  simp [contents]

@[simp] theorem contents_snoc_same :
    contents (log ++ [(name, piece)]) name = contents log name ++ piece := by
  simp [contents]

theorem contents_snoc_other (hne : other ≠ name) :
    contents (log ++ [(other, piece)]) name = contents log name := by
  simp [contents, hne]

theorem contents_frame (hother : ∀ piece ∈ later, piece.1 ≠ name) :
    contents (log ++ later) name = contents log name := by
  rw [contents_append]
  have hnone : later.filter (fun piece => piece.1 = name) = [] := by
    apply List.filter_eq_nil_iff.mpr
    intro piece hpiece
    simpa using hother piece hpiece
  simp [contents, hnone]

theorem bounded_nil : Bounded most ([] : List (κ × List α)) :=
  fun _ => Nat.zero_le _

theorem Bounded.snoc (hB : Bounded most log)
    (hroom : (contents log name).length+piece.length ≤ most) :
    Bounded most (log ++ [(name, piece)]) := by
  intro other
  by_cases hname : name = other
  · subst hname
    rw [contents_snoc_same, List.length_append]
    exact hroom
  · rw [contents_snoc_other hname]
    exact hB other

end TcpFunnel.Appends
