import Mathlib.Logic.Relation

/-!
# Programs simulated by abstract actions

A program on states `σ` may stop early with an error that carries the state
in which it stopped. An abstract machine moves on its own states `τ`, of each
of which `view` is the concrete state. A program is simulated from `t` when it
ends in the view of a state the machine can move to from `t`; where it stops
early, the state it stopped in and the error need only be related by `cut` to
a state the machine can move to.
-/

set_option autoImplicit false

namespace TcpFunnel.Simulation
open Relation

variable {ε σ τ α β : Type} (act : τ → τ → Prop) (view : τ → σ) (cut : τ → ε → σ → Prop)

def Result (t : τ) (post : α → τ → Prop) : EStateM.Result ε σ α → Prop
  | .ok a s => ∃ t', ReflTransGen act t t' ∧ view t' = s ∧ post a t'
  | .error e s => ∃ t', ReflTransGen act t t' ∧ cut t' e s

/-- The program runs from a concrete state that the machine, in `t`, has not
caught up with. -/
structure SimulatedAt (t : τ) (s : σ) (x : EStateM ε σ α) (post : α → τ → Prop) : Prop where
  result : Result act view cut t post (x.run s)

abbrev Simulated (t : τ) (x : EStateM ε σ α) (post : α → τ → Prop) : Prop :=
  SimulatedAt act view cut t (view t) x post

variable {act view cut}

/-- A part of the program runs while the machine stays where it is. -/
theorem SimulatedAt.step {t : τ} {s s' : σ} {x : EStateM ε σ α} {f : α → EStateM ε σ β} {a : α}
    {post : β → τ → Prop} (hx : x.run s = .ok a s')
    (hf : SimulatedAt act view cut t s' (f a) post) :
    SimulatedAt act view cut t s (x >>= f) post := by
  constructor
  rw [EStateM.run_bind, hx]
  exact hf.result

theorem SimulatedAt.congr {t : τ} {s s' : σ} {x y : EStateM ε σ α} {post : α → τ → Prop}
    (h : x.run s = y.run s') (hy : SimulatedAt act view cut t s' y post) :
    SimulatedAt act view cut t s x post := by
  constructor
  rw [h]
  exact hy.result

theorem SimulatedAt.moved {t u : τ} {s : σ} {x : EStateM ε σ α} {post : α → τ → Prop}
    (ht : ReflTransGen act t u) (hv : view u = s) (hx : Simulated act view cut u x post) :
    SimulatedAt act view cut t s x post := by
  subst hv
  have hres := hx.result
  constructor
  cases hr : x.run (view u) with
  | ok a s =>
    rw [hr] at hres
    obtain ⟨t',hu,hv,hp⟩ := hres
    exact ⟨t', ht.trans hu, hv, hp⟩
  | error e s =>
    rw [hr] at hres
    obtain ⟨t',hu,hc⟩ := hres
    exact ⟨t', ht.trans hu, hc⟩

theorem Simulated.ok {t u : τ} {x : EStateM ε σ α} {post : α → τ → Prop} {a : α}
    (hx : x.run (view t) = .ok a (view u)) (ht : ReflTransGen act t u) (hp : post a u) :
    Simulated act view cut t x post := by
  constructor
  rw [hx]
  exact ⟨u, ht, rfl, hp⟩

theorem Simulated.error {t u : τ} {x : EStateM ε σ α} {post : α → τ → Prop} {e : ε} {s : σ}
    (hx : x.run (view t) = .error e s) (ht : ReflTransGen act t u) (hc : cut u e s) :
    Simulated act view cut t x post := by
  constructor
  rw [hx]
  exact ⟨u, ht, hc⟩

theorem Simulated.pure {t : τ} {a : α} {post : α → τ → Prop} (h : post a t) :
    Simulated act view cut t (Pure.pure a : EStateM ε σ α) post :=
  Simulated.ok rfl .refl h

theorem Simulated.mono {t : τ} {x : EStateM ε σ α} {post post' : α → τ → Prop}
    (hx : Simulated act view cut t x post)
    (h : ∀ a t', ReflTransGen act t t' → post a t' → post' a t') :
    Simulated act view cut t x post' := by
  have hres := hx.result
  cases hr : x.run (view t) with
  | ok a s =>
    rw [hr] at hres
    obtain ⟨t',ht,hv,hp⟩ := hres
    exact .ok (hv ▸ hr) ht (h a t' ht hp)
  | error e s =>
    rw [hr] at hres
    obtain ⟨t',ht,hc⟩ := hres
    exact .error hr ht hc

theorem Simulated.bind {t : τ} {x : EStateM ε σ α} {f : α → EStateM ε σ β}
    {mid : α → τ → Prop} {post : β → τ → Prop} (hx : Simulated act view cut t x mid)
    (hf : ∀ a u, ReflTransGen act t u → mid a u → Simulated act view cut u (f a) post) :
    Simulated act view cut t (x >>= f) post := by
  have hres := hx.result
  cases hr : x.run (view t) with
  | ok a s =>
    rw [hr] at hres
    obtain ⟨u,hu,hv,hm⟩ := hres
    exact .step hr (.moved hu hv (hf a u hu hm))
  | error e s =>
    rw [hr] at hres
    obtain ⟨u,hu,hc⟩ := hres
    exact .error (by rw [EStateM.run_bind, hr]) hu hc

end TcpFunnel.Simulation
