import Mathlib.Data.List.Nodup

/-!
# Lists linked through cells

A cell holds the name of an element or is null. It lies in the head of a list
or in an element, so that the first link of a list is no special case. A path
follows the links through the elements of a list, and the last cell on it is
null where the list ends. A second map leads from each cell back to another
one: from an element to the cell that links to it, and from a head to the last
cell.
-/

set_option autoImplicit false

namespace TcpFunnel.Links

inductive Cell (η ν : Type*) where
  | first (h : η)
  | next (x : ν)
  deriving DecidableEq, Repr

variable {η ν : Type*} {word word' : Cell η ν → Option ν}
variable {back back' : Cell η ν → Option (Cell η ν)}
variable {c d : Cell η ν} {x y : ν} {xs ys zs : List ν}

/-- The cell behind the elements of a list that begins at a cell. -/
def lastCell : Cell η ν → List ν → Cell η ν
  | c, [] => c
  | _, x::xs => lastCell (.next x) xs

def reads : Cell η ν → List ν → List (Cell η ν)
  | _, [] => []
  | c, x::xs => c::reads (.next x) xs

def Path (word : Cell η ν → Option ν) : Cell η ν → List ν → Prop
  | _, [] => True
  | c, x::xs => word c = some x ∧ Path word (.next x) xs

def Backs (back : Cell η ν → Option (Cell η ν)) : Cell η ν → List ν → Prop
  | _, [] => True
  | c, x::xs => back (.next x) = some c ∧ Backs back (.next x) xs

def Chain (word : Cell η ν → Option ν) (c : Cell η ν) (xs : List ν) : Prop :=
  Path word c xs ∧ word (lastCell c xs) = none

@[simp] theorem lastCell_nil : lastCell c [] = c := rfl

@[simp] theorem lastCell_cons : lastCell c (x::xs) = lastCell (.next x) xs := rfl

@[simp] theorem path_nil : Path word c [] := trivial

@[simp] theorem path_cons : Path word c (x::xs) ↔ word c = some x ∧ Path word (.next x) xs :=
  Iff.rfl

@[simp] theorem backs_nil : Backs back c [] := trivial

@[simp] theorem backs_cons :
    Backs back c (x::xs) ↔ back (.next x) = some c ∧ Backs back (.next x) xs :=
  Iff.rfl

theorem lastCell_append : lastCell c (xs ++ ys) = lastCell (lastCell c xs) ys := by
  induction xs generalizing c with
  | nil => rfl
  | cons x xs ih => exact ih

@[simp] theorem lastCell_snoc : lastCell c (xs ++ [x]) = .next x := by
  rw [lastCell_append]
  rfl

theorem path_append : Path word c (xs ++ ys) ↔ Path word c xs ∧ Path word (lastCell c xs) ys := by
  induction xs generalizing c with
  | nil => simp
  | cons x xs ih => simp [ih, and_assoc]

theorem backs_append :
    Backs back c (xs ++ ys) ↔ Backs back c xs ∧ Backs back (lastCell c xs) ys := by
  induction xs generalizing c with
  | nil => simp
  | cons x xs ih => simp [ih, and_assoc]

theorem reads_last : reads c xs ++ [lastCell c xs] = c::xs.map .next := by
  induction xs generalizing c with
  | nil => rfl
  | cons x xs ih => simp [reads, ih]

theorem mem_reads (h : d ∈ reads c xs) : d = c ∨ ∃ x ∈ xs, d = .next x := by
  have hall : d ∈ c::xs.map Cell.next := by
    rw [← reads_last]
    exact List.mem_append_left _ h
  simpa [eq_comm] using hall

theorem lastCell_cases : (xs = [] ∧ lastCell c xs = c) ∨
    ∃ ys x, xs = ys ++ [x] ∧ lastCell c xs = .next x := by
  rcases List.eq_nil_or_concat xs with rfl | ⟨ys,x,rfl⟩
  · exact .inl ⟨rfl, rfl⟩
  · exact .inr ⟨ys, x, by simp, by simp⟩

theorem cells_nodup (hxs : xs.Nodup) (hc : ∀ x ∈ xs, c ≠ .next x) :
    (reads c xs ++ [lastCell c xs]).Nodup := by
  rw [reads_last, List.nodup_cons]
  constructor
  · simpa [eq_comm] using hc
  · exact hxs.map fun x y h => by
      cases h
      rfl

theorem last_not_read (hxs : xs.Nodup) (hc : ∀ x ∈ xs, c ≠ .next x) :
    lastCell c xs ∉ reads c xs := by
  have hcells := List.nodup_append.mp (cells_nodup hxs hc)
  exact fun h => hcells.2.2 _ h _ (List.mem_singleton_self _) rfl

theorem Path.congr (h : Path word c xs) (hsame : ∀ d ∈ reads c xs, word' d = word d) :
    Path word' c xs := by
  induction xs generalizing c with
  | nil => trivial
  | cons x xs ih =>
    obtain ⟨hx,hrest⟩ := h
    constructor
    · rw [hsame c (List.mem_cons_self ..), hx]
    · exact ih hrest fun d hd => hsame d (List.mem_cons_of_mem _ hd)

theorem Backs.congr (h : Backs back c xs) (hsame : ∀ x ∈ xs, back' (.next x) = back (.next x)) :
    Backs back' c xs := by
  induction xs generalizing c with
  | nil => trivial
  | cons x xs ih =>
    obtain ⟨hx,hrest⟩ := h
    constructor
    · rw [hsame x (List.mem_cons_self ..), hx]
    · exact ih hrest fun y hy => hsame y (List.mem_cons_of_mem _ hy)

theorem Chain.unique (h : Chain word c xs) (h' : Chain word c ys) : xs = ys := by
  obtain ⟨hpath,hlast⟩ := h
  obtain ⟨hpath',hlast'⟩ := h'
  induction xs generalizing c ys with
  | nil =>
    cases ys with
    | nil => rfl
    | cons y ys =>
      rw [lastCell_nil, hpath'.1] at hlast
      cases hlast
  | cons x xs ih =>
    cases ys with
    | nil =>
      rw [lastCell_nil, hpath.1] at hlast'
      cases hlast'
    | cons y ys =>
      cases hpath.1.symm.trans hpath'.1
      rw [ih hpath.2 hlast hpath'.2 hlast']

theorem Chain.head (h : Chain word c xs) : word c = xs.head? := by
  cases xs with
  | nil => exact h.2
  | cons x xs => exact h.1.1

theorem chain_append :
    Chain word c (xs ++ ys) ↔ Path word c xs ∧ Chain word (lastCell c xs) ys := by
  rw [Chain, path_append, lastCell_append, and_assoc]
  rfl

@[simp] theorem chain_nil : Chain word c [] ↔ word c = none := by simp [Chain]

@[simp] theorem chain_cons : Chain word c (x::xs) ↔ word c = some x ∧ Chain word (.next x) xs := by
  simp [Chain, and_assoc]

/-- A list depends on its first cell only through what the cell holds. -/
theorem Chain.moved (h : Chain word c xs) (hd : word' d = word c)
    (hsame : ∀ x ∈ xs, word' (.next x) = word (.next x)) : Chain word' d xs := by
  induction xs generalizing c d with
  | nil => exact chain_nil.mpr (hd.trans h.2)
  | cons x xs ih =>
    rw [chain_cons] at h ⊢
    refine ⟨hd.trans h.1, ih h.2 ?_ fun y hy => hsame y (List.mem_cons_of_mem _ hy)⟩
    exact hsame x (List.mem_cons_self ..)

/-- What the elements of a part of a list hold is not changed by a write in
front of them. -/
theorem last_ne_next (hnodup : (ys ++ zs).Nodup) (hc : ∀ z ∈ ys ++ zs, c ≠ .next z) :
    ∀ z ∈ zs, lastCell c ys ≠ .next z := by
  intro z hz hlast
  rcases @lastCell_cases _ _ c ys with ⟨-,hcell⟩ | ⟨front,y,rfl,hcell⟩
  · exact hc z (List.mem_append_right _ hz) (hcell.symm.trans hlast)
  · cases hcell.symm.trans hlast
    exact (List.nodup_append.mp hnodup).2.2 z (by simp) z hz rfl

section edits

variable (hnodup : (ys ++ zs).Nodup) (hc : ∀ z ∈ ys ++ zs, c ≠ .next z)
include hnodup hc

theorem Path.front (h : Path word c ys) {far : Cell η ν → Prop}
    (hfar : ∀ d, far d → d ≠ c ∧ ∀ y ∈ ys, d ≠ .next y)
    (hsame : ∀ d, d ≠ lastCell c ys → ¬ far d → word' d = word d) : Path word' c ys := by
  have hys : ys.Nodup := (List.nodup_append.mp hnodup).1
  have hcys : ∀ y ∈ ys, c ≠ .next y := fun y hy => hc y (List.mem_append_left _ hy)
  refine h.congr fun d hd => hsame d (fun hlast => ?_) (fun hd' => ?_)
  · exact last_not_read hys hcys (hlast ▸ hd)
  · obtain ⟨hdc,hdys⟩ := hfar d hd'
    rcases mem_reads hd with hfirst | ⟨y,hy,hnext⟩
    · exact hdc hfirst
    · exact hdys y hy hnext

/-- An element is linked in at any place. -/
theorem Chain.insert (h : Chain word c (ys ++ zs)) (hx : x ∉ ys ++ zs) (hcx : c ≠ .next x)
    (hprev : word' (lastCell c ys) = some x) (hnew : word' (.next x) = word (lastCell c ys))
    (hsame : ∀ d, d ≠ lastCell c ys → d ≠ .next x → word' d = word d) :
    Chain word' c (ys ++ x::zs) := by
  rw [chain_append] at h ⊢
  rw [chain_cons]
  have hxs : ∀ y ∈ ys ++ zs, (Cell.next x : Cell η ν) ≠ .next y := by
    intro y hy heq
    cases heq
    exact hx hy
  refine ⟨?_, hprev, h.2.moved hnew fun z hz => hsame _ ?_ ?_⟩
  · apply h.1.front hnodup hc _ hsame
    rintro d rfl
    exact ⟨hcx.symm, fun y hy => hxs y (List.mem_append_left _ hy)⟩
  · exact (last_ne_next hnodup hc z hz).symm
  · exact (hxs z (List.mem_append_right _ hz)).symm

end edits

/-- An element is passed over. -/
theorem Chain.erase (h : Chain word c (ys ++ x::zs)) (hnodup : (ys ++ x::zs).Nodup)
    (hc : ∀ z ∈ ys ++ x::zs, c ≠ .next z) (hprev : word' (lastCell c ys) = word (.next x))
    (hsame : ∀ d, d ≠ lastCell c ys → word' d = word d) : Chain word' c (ys ++ zs) := by
  rw [chain_append] at h ⊢
  rw [chain_cons] at h
  refine ⟨?_, h.2.2.moved hprev fun z hz => hsame _ ?_⟩
  · have hnone : ∀ d, (fun _ : Cell η ν => False) d → d ≠ c ∧ ∀ y ∈ ys, d ≠ .next y := by simp
    exact h.1.front hnodup hc hnone fun d hd _ => hsame d hd
  · exact (last_ne_next hnodup hc z (List.mem_cons_of_mem _ hz)).symm

theorem Chain.join (h : Chain word c xs) (h' : Chain word d ys) (hnodup : (xs ++ ys).Nodup)
    (hc : ∀ z ∈ xs ++ ys, c ≠ .next z) (hlast : word' (lastCell c xs) = word d)
    (hsame : ∀ e, e ≠ lastCell c xs → e ≠ d → word' e = word e) (hdc : d ≠ c)
    (hd : ∀ z ∈ xs ++ ys, d ≠ .next z) : Chain word' c (xs ++ ys) := by
  rw [chain_append]
  constructor
  · apply h.1.front hnodup hc _ hsame
    rintro e rfl
    exact ⟨hdc, fun y hy => hd y (List.mem_append_left _ hy)⟩
  · refine h'.moved hlast fun z hz => hsame _ ?_ ?_
    · exact (last_ne_next hnodup hc z hz).symm
    · exact (hd z (List.mem_append_right _ hz)).symm

theorem Backs.moved (h : Backs back c xs) (hhead : ∀ z ∈ xs.head?, back' (.next z) = some d)
    (hsame : ∀ z ∈ xs.tail, back' (.next z) = back (.next z)) : Backs back' d xs := by
  cases xs with
  | nil => trivial
  | cons x xs => exact ⟨hhead x rfl, h.2.congr hsame⟩

theorem Backs.insert (h : Backs back c (ys ++ zs)) (hnew : back' (.next x) = some (lastCell c ys))
    (hhead : ∀ z ∈ zs.head?, back' (.next z) = some (.next x))
    (hsame : ∀ z ∈ ys ++ zs.tail, back' (.next z) = back (.next z)) :
    Backs back' c (ys ++ x::zs) := by
  rw [backs_append] at h ⊢
  refine ⟨h.1.congr fun y hy => hsame y (List.mem_append_left _ hy), hnew, ?_⟩
  exact h.2.moved hhead fun z hz => hsame z (List.mem_append_right _ hz)

theorem Backs.erase (h : Backs back c (ys ++ x::zs))
    (hhead : ∀ z ∈ zs.head?, back' (.next z) = some (lastCell c ys))
    (hsame : ∀ z ∈ ys ++ zs.tail, back' (.next z) = back (.next z)) :
    Backs back' c (ys ++ zs) := by
  rw [backs_append] at h ⊢
  refine ⟨h.1.congr fun y hy => hsame y (List.mem_append_left _ hy), ?_⟩
  exact h.2.2.moved hhead fun z hz => hsame z (List.mem_append_right _ hz)

theorem Backs.join (h : Backs back c xs) (h' : Backs back d ys)
    (hhead : ∀ z ∈ ys.head?, back' (.next z) = some (lastCell c xs))
    (hsame : ∀ z ∈ xs ++ ys.tail, back' (.next z) = back (.next z)) :
    Backs back' c (xs ++ ys) := by
  rw [backs_append]
  refine ⟨h.congr fun y hy => hsame y (List.mem_append_left _ hy), ?_⟩
  exact h'.moved hhead fun z hz => hsame z (List.mem_append_right _ hz)

end TcpFunnel.Links
