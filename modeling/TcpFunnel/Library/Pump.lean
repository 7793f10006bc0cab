import TcpFunnel.Library.Supply

/-!
# Moving a number of items in several calls

Each call is asked for what is still to be moved and replies with a number of
items, or that it was interrupted, has nothing now, or failed. An interruption
is followed by another call, and every other reply that moves nothing ends the
moving.
-/

set_option autoImplicit false

namespace TcpFunnel.Pump
open TcpFunnel.Supply

inductive Reply where
  | interrupted
  | again
  | failed
  | moved (k : ℕ)
  deriving DecidableEq, Repr

def Reply.amount : Reply → ℕ
  | .moved k => k
  | .interrupted | .again | .failed => 0

def total : List Reply → ℕ
  | [] => 0
  | r::replies => r.amount+total replies

def Reply.Continues : Reply → Prop
  | .interrupted => True
  | .moved k => 0 < k
  | .again | .failed => False

inductive Outcome where
  | count
  | closed
  | failed
  deriving DecidableEq, Repr

/-- With `n` items to be moved, exactly these replies are taken. -/
inductive Pumped : ℕ → List Reply → Outcome → Prop
  | done : Pumped 0 [] .count
  | again {n : ℕ} (hn : 0 < n) : Pumped n [.again] .count
  | closed {n : ℕ} (hn : 0 < n) : Pumped n [.moved 0] .closed
  | failed {n : ℕ} (hn : 0 < n) : Pumped n [.failed] .failed
  | retry {n : ℕ} {later : List Reply} {out : Outcome} (hn : 0 < n) (h : Pumped n later out) :
      Pumped n (.interrupted::later) out
  | moved {n k : ℕ} {later : List Reply} {out : Outcome} (hk : 0 < k) (h : Pumped n later out) :
      Pumped (k+n) (.moved k::later) out

def Allowed (n : ℕ) (a : ℕ → Reply) : Prop :=
  ∀ i, (∀ j, j < i → (a j).Continues) → total (first a i) < n →
    total (first a i)+(a i).amount ≤ n

def Persistent (a : ℕ → Reply) : Prop := ∀ i, ∃ j, i ≤ j ∧ a j ≠ .interrupted

variable {n k : ℕ} {r : Reply} {replies later : List Reply} {out : Outcome} {a : ℕ → Reply}

@[simp] theorem total_nil : total [] = 0 := rfl

@[simp] theorem total_cons : total (r::replies) = r.amount+total replies := rfl

theorem Pumped.again_cases (h : Pumped n (.again::later) out) :
    0 < n ∧ later = [] ∧ out = .count := by
  cases h with
  | again hn => exact ⟨hn, rfl, rfl⟩

theorem Pumped.failed_cases (h : Pumped n (.failed::later) out) :
    0 < n ∧ later = [] ∧ out = .failed := by
  cases h with
  | failed hn => exact ⟨hn, rfl, rfl⟩

theorem Pumped.retry_cases (h : Pumped n (.interrupted::later) out) :
    0 < n ∧ Pumped n later out := by
  cases h with
  | retry hn hlater => exact ⟨hn, hlater⟩

theorem Pumped.moved_cases (h : Pumped n (.moved k::later) out) :
    (k = 0 ∧ 0 < n ∧ later = [] ∧ out = .closed) ∨
      (0 < k ∧ ∃ m, n = k+m ∧ Pumped m later out) := by
  cases h with
  | closed hn => exact .inl ⟨rfl, hn, rfl, rfl⟩
  | moved hk hlater => exact .inr ⟨hk, _, rfl, hlater⟩

theorem Pumped.total_le (h : Pumped n replies out) : total replies ≤ n := by
  induction h with
  | done | again | closed | failed => simp [Reply.amount]
  | retry hn h ih => simpa [Reply.amount] using ih
  | moved hk h ih =>
    simp only [total_cons, Reply.amount]
    omega

theorem Pumped.short (h : Pumped n replies out) (hcount : out = .count)
    (hshort : total replies < n) : replies.getLast? = some .again := by
  induction h with
  | done => exact absurd hshort (Nat.lt_irrefl _)
  | again => rfl
  | closed | failed => cases hcount
  | @retry n later out hn h ih =>
    have hlast := ih hcount (by simpa [Reply.amount] using hshort)
    rw [List.getLast?_cons, hlast]
    rfl
  | @moved n k later out hk h ih =>
    have hlast := ih hcount (by
      simp only [total_cons, Reply.amount] at hshort
      omega)
    rw [List.getLast?_cons, hlast]
    rfl

theorem Pumped.closed_iff (h : Pumped n replies out) : out = .closed ↔ .moved 0 ∈ replies := by
  induction h with
  | done | again | closed | failed => simp
  | retry hn h ih => simpa using ih
  | @moved n k later out hk h ih =>
    have hne : k ≠ 0 := Nat.ne_of_gt hk
    simpa [hne.symm] using ih

theorem Pumped.failed_iff (h : Pumped n replies out) : out = .failed ↔ .failed ∈ replies := by
  induction h with
  | done | again | closed | failed => simp
  | retry hn h ih => simpa using ih
  | moved hk h ih => simpa using ih

theorem first_one_add : first a (1+k) = a 0::first (after a 1) k := by
  rw [first_add]
  rfl

theorem Persistent.after (h : Persistent a) : Persistent (after a k) := by
  intro i
  obtain ⟨j,hij,hj⟩ := h (k+i)
  exact ⟨j-k, by omega, by simpa [Supply.after, show k+(j-k) = j by omega] using hj⟩

theorem Allowed.after (h : Allowed ((a 0).amount+n) a) (hgo : (a 0).Continues) :
    Allowed n (after a 1) := by
  intro i hgoes htotal
  have hgoes' : ∀ j, j < 1+i → (a j).Continues := by
    intro j hj
    cases j with
    | zero => exact hgo
    | succ j =>
      have hlater := hgoes j (by omega)
      rwa [Supply.after, Nat.add_comm] at hlater
  have hsum : total (first a (1+i)) = (a 0).amount+total (first (Supply.after a 1) i) := by
    rw [first_one_add, total_cons]
  have hfits := h (1+i) hgoes' (by omega)
  rw [hsum] at hfits
  unfold Supply.after at hfits ⊢
  omega

theorem first_one : first a 1 = [a 0] := rfl

theorem pumped_first (hn : 0 < n) (hallowed : Allowed n a) (hpersist : Persistent a)
    (hfirst : a 0 ≠ .interrupted)
    (hless : ∀ m, m < n → ∀ b, Allowed m b → Persistent b → ∃ k out, Pumped m (first b k) out) :
    ∃ k out, Pumped n (first a k) out := by
  cases h0 : a 0 with
  | interrupted => exact absurd h0 hfirst
  | again => exact ⟨1, .count, by rw [first_one, h0]; exact .again hn⟩
  | failed => exact ⟨1, .failed, by rw [first_one, h0]; exact .failed hn⟩
  | moved m =>
    rcases Nat.eq_zero_or_pos m with rfl | hm
    · exact ⟨1, .closed, by rw [first_one, h0]; exact .closed hn⟩
    have hfits := hallowed 0 (by simp) hn
    have hgo : (a 0).Continues := by rwa [h0]
    have hamount : (a 0).amount = m := by rw [h0]; rfl
    rw [hamount] at hfits
    simp only [first_zero, total_nil, Nat.zero_add] at hfits
    obtain ⟨l,rfl⟩ := Nat.exists_eq_add_of_le hfits
    have hrest : Allowed l (after a 1) := Allowed.after (by rwa [hamount]) hgo
    obtain ⟨k,out,hk⟩ := hless l (by omega) _ hrest hpersist.after
    exact ⟨1+k, out, by rw [first_one_add, h0]; exact .moved hm hk⟩

/-- Finitely many replies end the moving. -/
theorem pumped_ends (n : ℕ) {a : ℕ → Reply} (hallowed : Allowed n a) (hpersist : Persistent a) :
    ∃ k out, Pumped n (first a k) out := by
  induction n using Nat.strong_induction_on generalizing a with
  | _ n ih =>
    rcases Nat.eq_zero_or_pos n with rfl | hn
    · exact ⟨0, .count, .done⟩
    obtain ⟨d,-,hd⟩ := hpersist 0
    -- on the position of a reply that is no interruption
    induction d generalizing a with
    | zero => exact pumped_first hn hallowed hpersist hd fun m hm b => ih m hm
    | succ d ihd =>
      by_cases hfirst : a 0 = .interrupted
      · have hgo : (a 0).Continues := by rw [hfirst]; trivial
        have hrest : Allowed n (after a 1) := by
          apply Allowed.after _ hgo
          rw [hfirst]
          simpa [Reply.amount] using hallowed
        have hd' : after a 1 d ≠ .interrupted := by rwa [after, Nat.add_comm]
        obtain ⟨k,out,hk⟩ := ihd hrest hpersist.after hd'
        exact ⟨1+k, out, by rw [first_one_add, hfirst]; exact .retry hn hk⟩
      · exact pumped_first hn hallowed hpersist hfirst fun m hm b => ih m hm

end TcpFunnel.Pump
