import Mathlib.Init

/-!
# Two programs that agree

Two programs run on states of different types that a relation connects. They
agree when both return the same in related states, or both stop for the same
reason.
-/

set_option autoImplicit false

namespace TcpFunnel.Agreement

variable {ε σ τ α β : Type} {R : σ → τ → Prop}

def Agree (R : σ → τ → Prop) : EStateM.Result ε σ α → EStateM.Result ε τ α → Prop
  | .ok a s, .ok b t => a = b ∧ R s t
  | .error e _, .error e' _ => e = e'
  | .ok .., .error .. => False
  | .error .., .ok .. => False

theorem Agree.result {x : EStateM.Result ε σ α} {y : EStateM.Result ε τ α} (h : Agree R x y) :
    (∃ a s t, x = .ok a s ∧ y = .ok a t ∧ R s t) ∨
    ∃ e s t, x = .error e s ∧ y = .error e t := by
  cases x with
  | ok a s =>
    cases y with
    | ok b t =>
      obtain ⟨rfl,hR⟩ := h
      exact .inl ⟨a, s, t, rfl, rfl, hR⟩
    | error e t => exact h.elim
  | error e s =>
    cases y with
    | ok b t => exact h.elim
    | error e' t =>
      cases (h : e = e')
      exact .inr ⟨e, s, t, rfl, rfl⟩

theorem Agree.bind {x : EStateM ε σ α} {y : EStateM ε τ α} {f : α → EStateM ε σ β}
    {g : α → EStateM ε τ β} {s : σ} {t : τ} (hxy : Agree R (x.run s) (y.run t))
    (hfg : ∀ a s' t', x.run s = .ok a s' → y.run t = .ok a t' → R s' t' →
      Agree R ((f a).run s') ((g a).run t')) :
    Agree R ((x >>= f).run s) ((y >>= g).run t) := by
  rw [EStateM.run_bind, EStateM.run_bind]
  rcases hxy.result with ⟨a,s',t',hx,hy,hR⟩ | ⟨e,s',t',hx,hy⟩
  · rw [hx, hy]
    exact hfg a s' t' hx hy hR
  · rw [hx, hy]
    rfl

end TcpFunnel.Agreement
