import Mathlib.Logic.Relation

/-!
# Runs of a labelled system

A run starts in an initial state and takes steps whose labels satisfy a
condition on the state before them. The condition that always holds gives the
ordinary reachable states, and a stronger condition gives fewer.
-/

set_option autoImplicit false

namespace TcpFunnel.Reachability

structure System (σ ℓ : Type*) where
  start : σ → Prop
  step : σ → ℓ → σ → Prop

variable {σ ℓ : Type*}

inductive Reaches (S : System σ ℓ) (ok : σ → ℓ → Prop) : σ → Prop
  | start {s : σ} (h : S.start s) : Reaches S ok s
  | step {s t : σ} {l : ℓ} (run : Reaches S ok s) (holds : ok s l) (h : S.step s l t) :
      Reaches S ok t

/-- The states between two steps of any run. -/
abbrev Reachable (S : System σ ℓ) : σ → Prop := Reaches S (fun _ _ => True)

variable {S : System σ ℓ} {ok ok' : σ → ℓ → Prop}

theorem Reaches.mono (h : ∀ s l, ok s l → ok' s l) {s : σ} (hs : Reaches S ok s) :
    Reaches S ok' s := by
  induction hs with
  | start hs => exact .start hs
  | step _ ho ht ih => exact .step ih (h _ _ ho) ht

theorem Reaches.reachable {s : σ} (hs : Reaches S ok s) : Reachable S s :=
  hs.mono fun _ _ _ => trivial

theorem Reaches.foldlM {next : σ → ℓ → Option σ}
    (hnext : ∀ s l t, next s l = some t → ok s l ∧ S.step s l t) {ls : List ℓ} {s t : σ}
    (hs : Reaches S ok s) (h : ls.foldlM next s = some t) : Reaches S ok t := by
  induction ls generalizing s with
  | nil =>
    cases h
    exact hs
  | cons l ls ih =>
    rw [List.foldlM_cons, Option.bind_eq_bind, Option.bind_eq_some_iff] at h
    obtain ⟨u,hu,hrest⟩ := h
    obtain ⟨hok,hstep⟩ := hnext s l u hu
    exact ih (.step hs hok hstep) hrest

/-- An invariant of the steps that meet the condition. The step may use that
its source is reached. -/
theorem Reaches.invariant (P : σ → Prop) (hstart : ∀ s, S.start s → P s)
    (hstep : ∀ s l t, Reaches S ok s → P s → ok s l → S.step s l t → P t)
    {s : σ} (hs : Reaches S ok s) : P s := by
  induction hs with
  | start hs => exact hstart _ hs
  | step hr ho ht ih => exact hstep _ _ _ hr ih ho ht

/-- The states that come later in a run that has come to the first one. -/
abbrev Leads (S : System σ ℓ) : σ → σ → Prop := Relation.ReflTransGen fun s t => ∃ l, S.step s l t

theorem Leads.reachable {s t : σ} (h : Leads S s t) (hs : Reachable S s) : Reachable S t := by
  induction h with
  | refl => exact hs
  | tail _ hstep ih =>
    obtain ⟨l,hstep⟩ := hstep
    exact .step ih trivial hstep

/-- A relation between a state and any later one. -/
theorem Leads.relation (R : σ → σ → Prop) (hrefl : ∀ s, R s s)
    (htrans : ∀ s t u, Reachable S s → R s t → R t u → R s u)
    (hstep : ∀ s l t, Reachable S s → S.step s l t → R s t) {s t : σ} (h : Leads S s t)
    (hs : Reachable S s) : R s t := by
  induction h with
  | refl => exact hrefl s
  | tail hl hlast ih =>
    obtain ⟨l,hlast⟩ := hlast
    exact htrans _ _ _ hs ih (hstep _ l _ (Leads.reachable hl hs) hlast)

end TcpFunnel.Reachability
