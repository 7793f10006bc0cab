import Mathlib.Data.List.Nodup

/-!
# First in, first out

The history of a queue. An element enters at the end of the queue, at most
once, is served from its head, or leaves from anywhere in it. Elements are
then served in the order in which they entered, and nobody is overtaken.
-/

set_option autoImplicit false

namespace TcpFunnel.Fifo

inductive Event (α : Type*) where
  | entered (a : α)
  | served (a : α)
  | left (a : α)
  deriving DecidableEq

variable {α : Type*}

def entries (log : List (Event α)) : List α :=
  log.filterMap fun | .entered a => some a | _ => none

def services (log : List (Event α)) : List α :=
  log.filterMap fun | .served a => some a | _ => none

@[simp] theorem entries_append (xs ys : List (Event α)) :
    entries (xs ++ ys) = entries xs ++ entries ys := List.filterMap_append

@[simp] theorem services_append (xs ys : List (Event α)) :
    services (xs ++ ys) = services xs ++ services ys := List.filterMap_append

@[simp] theorem entries_entered (a : α) : entries [.entered a] = [a] := rfl
@[simp] theorem entries_served (a : α) : entries [.served a] = [] := rfl
@[simp] theorem entries_left (a : α) : entries [.left a] = [] := rfl
@[simp] theorem services_entered (a : α) : services [.entered a] = [] := rfl
@[simp] theorem services_served (a : α) : services [.served a] = [a] := rfl
@[simp] theorem services_left (a : α) : services [.left a] = [] := rfl

theorem mem_entries {log : List (Event α)} {a : α} : a ∈ entries log ↔ .entered a ∈ log := by
  unfold entries
  rw [List.mem_filterMap]
  constructor
  · rintro ⟨e,he,ha⟩
    cases e <;> cases ha
    exact he
  · exact fun h => ⟨_, h, rfl⟩

theorem mem_services {log : List (Event α)} {a : α} : a ∈ services log ↔ .served a ∈ log := by
  unfold services
  rw [List.mem_filterMap]
  constructor
  · rintro ⟨e,he,ha⟩
    cases e <;> cases ha
    exact he
  · exact fun h => ⟨_, h, rfl⟩

/-- Whatever is served has entered, and all that entered before it has been
served or has left before it is served. -/
def Fair (log : List (Event α)) : Prop :=
  ∀ before b after, log = before ++ .served b :: after →
    .entered b ∈ before ∧
    ∀ front back, before = front ++ .entered b :: back → ∀ a, .entered a ∈ front →
      .served a ∈ before ∨ .left a ∈ before

theorem fair_snoc {log : List (Event α)} (h : Fair log) {e : Event α}
    (he : ∀ b, e = .served b → .entered b ∈ log ∧
      ∀ front back, log = front ++ .entered b :: back → ∀ a, .entered a ∈ front →
        .served a ∈ log ∨ .left a ∈ log) : Fair (log ++ [e]) := by
  intro before b after hlog
  rcases List.eq_nil_or_concat after with rfl | ⟨after,x,rfl⟩
  · obtain ⟨rfl,hb⟩ := List.append_inj' hlog rfl
    exact he b (List.cons_eq_cons.mp hb).1
  · rw [List.concat_eq_append, ← List.cons_append, ← List.append_assoc] at hlog
    exact h before b after (List.append_inj' hlog rfl).1

theorem not_mem_of_before {xs ys rest : List α} {a b : α}
    (h : (b::rest).Sublist (xs ++ b::ys)) (hn : (xs ++ b::ys).Nodup) (ha : a ∈ xs) :
    a ∉ b::rest := by
  obtain ⟨-,-,hd⟩ := List.nodup_append.mp hn
  obtain ⟨l₁,l₂,hl,h₁,h₂⟩ := List.sublist_append_iff.mp h
  cases l₁ with
  | nil =>
    rw [List.nil_append] at hl
    subst hl
    exact fun hm => hd a ha a (h₂.subset hm) rfl
  | cons x l₁ =>
    obtain ⟨rfl,-⟩ := List.cons_eq_cons.mp hl
    exact absurd rfl (hd b (h₁.subset (List.mem_cons_self ..)) b (List.mem_cons_self ..))

/-- A queue and its history. Those served followed by those still queued come
in the order in which they entered. -/
structure Ledger (queue : List α) (log : List (Event α)) : Prop where
  nodup : (entries log).Nodup
  order : (services log ++ queue).Sublist (entries log)
  accounted : ∀ a, .entered a ∈ log → a ∈ queue ∨ .served a ∈ log ∨ .left a ∈ log
  fair : Fair log

variable {queue : List α} {log : List (Event α)}

theorem ledger_nil : Ledger ([] : List α) [] where
  nodup := List.nodup_nil
  order := List.Sublist.refl []
  accounted := fun _ h => absurd h List.not_mem_nil
  fair := by
    intro before b after h
    simp at h

theorem Ledger.served_once (h : Ledger queue log) : (services log).Nodup :=
  ((List.sublist_append_left _ queue).trans h.order).nodup h.nodup

theorem Ledger.served_in_order (h : Ledger queue log) : (services log).Sublist (entries log) :=
  (List.sublist_append_left _ queue).trans h.order

theorem Ledger.queued_not_served (h : Ledger queue log) {a : α} (ha : a ∈ queue) :
    .served a ∉ log := by
  rw [← mem_services]
  intro hs
  have hn := h.order.nodup h.nodup
  exact (List.nodup_append.mp hn).2.2 a hs a ha rfl

theorem Ledger.enter (h : Ledger queue log) {a : α} (hnew : .entered a ∉ log) :
    Ledger (queue ++ [a]) (log ++ [.entered a]) where
  nodup := by
    rw [entries_append, entries_entered, List.nodup_append]
    refine ⟨h.nodup, List.nodup_singleton a, fun x hx y hy hxy => hnew ?_⟩
    rw [← mem_entries, ← List.mem_singleton.mp hy, ← hxy]
    exact hx
  order := by
    rw [services_append, entries_append, services_entered, entries_entered, List.append_nil,
      ← List.append_assoc]
    exact h.order.append (List.Sublist.refl [a])
  accounted := by
    intro b hb
    rcases List.mem_append.mp hb with hb | hb
    · rcases h.accounted b hb with hq | hs | hl
      · exact Or.inl (List.mem_append_left _ hq)
      · exact Or.inr (Or.inl (List.mem_append_left _ hs))
      · exact Or.inr (Or.inr (List.mem_append_left _ hl))
    · cases List.mem_singleton.mp hb
      exact Or.inl (List.mem_append_right _ (List.mem_singleton_self a))
  fair := fair_snoc h.fair (by simp)

theorem Ledger.serve {a : α} (h : Ledger (a::queue) log) : Ledger queue (log ++ [.served a]) where
  nodup := by
    rw [entries_append, entries_served, List.append_nil]
    exact h.nodup
  order := by
    rw [services_append, entries_append, services_served, entries_served, List.append_nil,
      List.append_assoc]
    exact h.order
  accounted := by
    intro b hb
    have hb' : .entered b ∈ log := by simpa using hb
    rcases h.accounted b hb' with hq | hs | hl
    · rcases List.mem_cons.mp hq with rfl | hq
      · exact Or.inr (Or.inl (List.mem_append_right _ (List.mem_singleton_self _)))
      · exact Or.inl hq
    · exact Or.inr (Or.inl (List.mem_append_left _ hs))
    · exact Or.inr (Or.inr (List.mem_append_left _ hl))
  fair := by
    have hsub : (a::queue).Sublist (entries log) := (List.sublist_append_right _ _).trans h.order
    refine fair_snoc h.fair fun b hb => ?_
    cases hb
    refine ⟨mem_entries.mp (hsub.subset (List.mem_cons_self ..)), fun front back hlog d hd => ?_⟩
    have hentries : entries log = entries front ++ a :: entries back := by
      rw [hlog, entries_append]
      rfl
    have hmem : .entered d ∈ log := hlog ▸ List.mem_append_left _ hd
    have hout : d ∉ a::queue :=
      not_mem_of_before (hentries ▸ hsub) (hentries ▸ h.nodup) (mem_entries.mpr hd)
    exact (h.accounted d hmem).resolve_left hout

theorem Ledger.leave {queue' : List α} (h : Ledger queue log) {a : α}
    (hsub : queue'.Sublist queue) (hgone : ∀ b ∈ queue, b ∉ queue' → b = a) :
    Ledger queue' (log ++ [.left a]) where
  nodup := by
    rw [entries_append, entries_left, List.append_nil]
    exact h.nodup
  order := by
    rw [services_append, entries_append, services_left, entries_left, List.append_nil,
      List.append_nil]
    exact ((List.Sublist.refl _).append hsub).trans h.order
  accounted := by
    intro b hb
    have hb' : .entered b ∈ log := by simpa using hb
    rcases h.accounted b hb' with hq | hs | hl
    · by_cases hq' : b ∈ queue'
      · exact Or.inl hq'
      · exact Or.inr (Or.inr (hgone b hq hq' ▸ List.mem_append_right _ (List.mem_singleton_self _)))
    · exact Or.inr (Or.inl (List.mem_append_left _ hs))
    · exact Or.inr (Or.inr (List.mem_append_left _ hl))
  fair := fair_snoc h.fair (by simp)

end TcpFunnel.Fifo
