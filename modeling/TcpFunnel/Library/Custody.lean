import Mathlib.Data.List.Induction

/-!
# Things taken and given back

The history of things that are taken and returned. It is proper when nothing
is taken that is held, and nothing returned that is not. Then every taking is
followed by exactly one return, unless the thing is still held.
-/

set_option autoImplicit false

namespace TcpFunnel.Custody

inductive Event (α : Type*) where
  | taken (a : α)
  | returned (a : α)
  deriving DecidableEq

variable {α : Type*} [DecidableEq α]

def holds (log : List (Event α)) (a : α) : Bool :=
  log.foldl (fun h e => if e = .taken a then true else if e = .returned a then false else h) false

@[simp] theorem holds_nil (a : α) : holds [] a = false := rfl

theorem holds_snoc (log : List (Event α)) (e : Event α) (a : α) :
    holds (log ++ [e]) a =
      if e = .taken a then true else if e = .returned a then false else holds log a := by
  simp [holds]

@[simp] theorem holds_taken (log : List (Event α)) (a b : α) :
    holds (log ++ [.taken b]) a = if a = b then true else holds log a := by
  simp [holds_snoc, eq_comm]

@[simp] theorem holds_returned (log : List (Event α)) (a b : α) :
    holds (log ++ [.returned b]) a = if a = b then false else holds log a := by
  simp [holds_snoc, eq_comm]

def Allowed (log : List (Event α)) : Event α → Prop
  | .taken a => holds log a = false
  | .returned a => holds log a = true

def Proper (log : List (Event α)) : Prop :=
  ∀ before e after, log = before ++ e :: after → Allowed before e

theorem proper_nil : Proper ([] : List (Event α)) := by
  intro before e after h
  simp at h

theorem Proper.snoc {log : List (Event α)} (h : Proper log) {e : Event α} (he : Allowed log e) :
    Proper (log ++ [e]) := by
  intro before x after hlog
  rcases List.eq_nil_or_concat after with rfl | ⟨after,y,rfl⟩
  · obtain ⟨rfl,hx⟩ := List.append_inj' hlog rfl
    cases hx
    exact he
  · rw [List.concat_eq_append, ← List.cons_append, ← List.append_assoc] at hlog
    exact h before x after (List.append_inj' hlog rfl).1

theorem Proper.front {log : List (Event α)} {e : Event α} (h : Proper (log ++ [e])) :
    Proper log ∧ Allowed log e := by
  constructor
  · intro before x after hlog
    apply h before x (after ++ [e])
    rw [hlog, List.append_assoc, List.cons_append]
  · exact h log e [] rfl

/-- The number of times that `a` is returned before it is taken again. -/
def returns (a : α) : List (Event α) → ℕ
  | [] => 0
  | .taken b :: es => if b = a then 0 else returns a es
  | .returned b :: es => if b = a then returns a es+1 else returns a es

theorem returns_again {a : α} {xs : List (Event α)} (h : .taken a ∈ xs) (ys : List (Event α)) :
    returns a (xs ++ ys) = returns a xs := by
  induction xs with
  | nil => simp at h
  | cons x xs ih =>
    cases x with
    | taken b =>
      by_cases hb : b = a
      · simp [returns, hb]
      · have hmem : .taken a ∈ xs := (List.mem_cons.mp h).resolve_left (by simp [Ne.symm hb])
        simp [returns, hb, ih hmem]
    | returned b =>
      have hmem : .taken a ∈ xs := by simpa using h
      simp only [List.cons_append, returns, ih hmem]

theorem returns_append {a : α} {xs : List (Event α)} (h : .taken a ∉ xs) (ys : List (Event α)) :
    returns a (xs ++ ys) = returns a xs + returns a ys := by
  induction xs with
  | nil => simp [returns]
  | cons x xs ih =>
    obtain ⟨hx,hxs⟩ := not_or.mp (mt List.mem_cons.mpr h)
    cases x with
    | taken b =>
      have hb : b ≠ a := by
        rintro rfl
        exact hx rfl
      simp [returns, hb, ih hxs]
    | returned b =>
      by_cases hb : b = a
      · simp only [List.cons_append, returns, if_pos hb, ih hxs]
        omega
      · simp only [List.cons_append, returns, if_neg hb, ih hxs]

theorem Proper.returns_eq {before after : List (Event α)} {a : α}
    (h : Proper (before ++ .taken a :: after)) :
    returns a after = if .taken a ∈ after then 1
      else if holds (before ++ .taken a :: after) a = true then 0 else 1 := by
  induction after using List.reverseRecOn with
  | nil => simp [returns]
  | append_singleton after e ih =>
    rw [← List.cons_append, ← List.append_assoc] at h ⊢
    obtain ⟨hproper,hallowed⟩ := h.front
    have hlast := ih hproper
    by_cases hmem : .taken a ∈ after
    · rw [if_pos hmem] at hlast
      rw [returns_again hmem, hlast, if_pos (List.mem_append_left _ hmem)]
    rw [if_neg hmem] at hlast
    rw [returns_append hmem, hlast]
    generalize before ++ .taken a :: after = log at hallowed
    cases e with
    | taken b =>
      by_cases hb : b = a
      · subst hb
        have hfree : holds log b = false := hallowed
        simp [hfree, returns]
      · simp [hmem, hb, returns, Ne.symm hb]
    | returned b =>
      by_cases hb : b = a
      · subst hb
        have hheld : holds log b = true := hallowed
        simp [hmem, hheld, returns]
      · simp [hmem, hb, returns, Ne.symm hb]

/-- Every taking is followed by exactly one return, or by none and the thing
is still held. -/
theorem Proper.once {before after : List (Event α)} {a : α}
    (h : Proper (before ++ .taken a :: after)) :
    returns a after = 1 ∨
    returns a after = 0 ∧ holds (before ++ .taken a :: after) a = true := by
  rw [h.returns_eq]
  by_cases hmem : .taken a ∈ after
  · exact Or.inl (if_pos hmem)
  · rw [if_neg hmem]
    cases holds (before ++ .taken a :: after) a with
    | true => exact Or.inr ⟨rfl, rfl⟩
    | false => exact Or.inl rfl

structure Balances (log : List (Event α)) : Prop where
  proper : Proper log
  once : ∀ before a after, log = before ++ .taken a :: after → returns a after = 1

theorem Proper.balances {log : List (Event α)} (h : Proper log)
    (hfree : ∀ a, holds log a = false) : Balances log := by
  constructor
  · exact h
  · intro before a after hlog
    rw [hlog] at h hfree
    rcases h.once with hone | ⟨-,hheld⟩
    · exact hone
    · rw [hfree a] at hheld
      cases hheld

theorem returns_none {a : α} {es : List (Event α)} (h : .returned a ∉ es) : returns a es = 0 := by
  induction es with
  | nil => rfl
  | cons e es ih =>
    obtain ⟨he,hes⟩ := not_or.mp (mt List.mem_cons.mpr h)
    cases e with
    | taken b => simp [returns, ih hes]
    | returned b =>
      have hb : b ≠ a := by
        rintro rfl
        exact he rfl
      simp [returns, hb, ih hes]

theorem Balances.returned {log : List (Event α)} (h : Balances log) {a : α}
    (ha : .taken a ∈ log) : .returned a ∈ log := by
  obtain ⟨before,after,rfl⟩ := List.append_of_mem ha
  have hone := h.once before a after rfl
  by_contra hnot
  have hafter : .returned a ∉ after := fun hmem =>
    hnot (List.mem_append_right _ (List.mem_cons_of_mem _ hmem))
  have hzero := returns_none hafter
  omega

theorem holds_takes (as : List α) (log : List (Event α)) (a : α) :
    holds (log ++ as.map .taken) a = (decide (a ∈ as) || holds log a) := by
  induction as using List.reverseRecOn with
  | nil => simp
  | append_singleton as b ih =>
    rw [List.map_append, ← List.append_assoc, List.map_singleton, holds_taken, ih]
    by_cases h : a = b <;> simp [h]

theorem holds_returns (bs : List α) (log : List (Event α)) (a : α) :
    holds (log ++ bs.map .returned) a = (!decide (a ∈ bs) && holds log a) := by
  induction bs using List.reverseRecOn with
  | nil => simp
  | append_singleton bs b ih =>
    rw [List.map_append, ← List.append_assoc, List.map_singleton, holds_returned, ih]
    by_cases h : a = b <;> simp [h]

omit [DecidableEq α] in
theorem nodup_snoc {as : List α} {b : α} (h : (as ++ [b]).Nodup) : as.Nodup ∧ b ∉ as := by
  obtain ⟨has,-,hne⟩ := List.nodup_append.mp h
  exact ⟨has, fun hb => hne b hb b (List.mem_singleton_self b) rfl⟩

theorem Proper.takes {log : List (Event α)} (h : Proper log) {as : List α} (has : as.Nodup)
    (hfree : ∀ a ∈ as, holds log a = false) : Proper (log ++ as.map .taken) := by
  induction as using List.reverseRecOn with
  | nil => simpa using h
  | append_singleton as b ih =>
    obtain ⟨has,hb⟩ := nodup_snoc has
    have hbefore := ih has fun a ha => hfree a (List.mem_append_left _ ha)
    have hallowed : Allowed (log ++ as.map .taken) (.taken b) := by
      have hlog := hfree b (List.mem_append_right _ (List.mem_singleton_self b))
      have hholds := holds_takes as log b
      simpa [Allowed, hb, hlog] using hholds
    rw [List.map_append, ← List.append_assoc]
    exact hbefore.snoc hallowed

theorem Proper.gives {log : List (Event α)} (h : Proper log) {bs : List α} (hbs : bs.Nodup)
    (hheld : ∀ b ∈ bs, holds log b = true) : Proper (log ++ bs.map .returned) := by
  induction bs using List.reverseRecOn with
  | nil => simpa using h
  | append_singleton bs b ih =>
    obtain ⟨hbs,hb⟩ := nodup_snoc hbs
    have hbefore := ih hbs fun a ha => hheld a (List.mem_append_left _ ha)
    have hallowed : Allowed (log ++ bs.map .returned) (.returned b) := by
      have hlog := hheld b (List.mem_append_right _ (List.mem_singleton_self b))
      have hholds := holds_returns bs log b
      simpa [Allowed, hb, hlog] using hholds
    rw [List.map_append, ← List.append_assoc]
    exact hbefore.snoc hallowed

theorem balances_roundTrip {as bs : List α} (has : as.Nodup) (hbs : bs.Nodup)
    (hsame : ∀ a, a ∈ bs ↔ a ∈ as) : Balances (as.map Event.taken ++ bs.map .returned) := by
  have htaken : ∀ a, holds (as.map Event.taken) a = decide (a ∈ as) := by
    intro a
    simpa using holds_takes as [] a
  have hproper : Proper (as.map Event.taken) := by
    simpa using proper_nil.takes has fun a _ => rfl
  apply Proper.balances
  · apply hproper.gives hbs
    intro b hb
    rw [htaken]
    exact decide_eq_true ((hsame b).mp hb)
  · intro a
    rw [holds_returns, htaken]
    by_cases ha : a ∈ as <;> simp [hsame, ha]

end TcpFunnel.Custody
