import Mathlib.Data.Set.Insert
import Mathlib.Data.List.Basic

/-!
# An exchange

Callers come to an exchange and wait in line until one of a few lines to a
callee is free. What either party says is held until the other party takes
it. Peers are dialled in turn. A dial that fails at once gives back a line
that has not been taken, and a caller that expires is not taken out of the
line of those who wait.
-/

set_option autoImplicit false

namespace TcpFunnel.Exchange

inductive Party where
  | caller
  | callee
  deriving DecidableEq, Repr

inductive Way where
  | there
  | back
  deriving DecidableEq, Repr

def Way.source : Way → Party
  | .there => .caller
  | .back => .callee

def Way.target : Way → Party
  | .there => .callee
  | .back => .caller

inductive CallerState where
  | came
  | waits
  | served
  | leaving
  | left
  deriving DecidableEq, Repr

inductive CalleeState where
  | absent
  | dialled
  | reached
  | failing
  | gone
  deriving DecidableEq, Repr

structure Call (α : Type*) where
  caller : CallerState
  callee : CalleeState
  peer : Option ℕ
  there : List α
  back : List α

inductive Event (ι α : Type*) where
  | got (i : ι) (party : Party) (xs : List α)
  | gave (i : ι) (party : Party) (xs : List α)

structure Limits where
  present : ℤ
  busy : ℤ
  peers : ℕ
  deriving DecidableEq, Repr

structure Desk (ι α : Type*) where
  calls : ι → Option (Call α)
  used : Set ι
  line : List ι
  present : ℤ
  busy : ℤ
  turn : ℕ

variable {ι α : Type*}

namespace Call

def fresh : Call α := ⟨.came, .absent, none, [], []⟩

def held (t : Call α) : Way → List α
  | .there => t.there
  | .back => t.back

def hold (t : Call α) (xs : List α) : Way → Call α
  | .there => { t with there := xs }
  | .back => { t with back := xs }

def Stays (t : Call α) : Prop := t.caller ≠ .leaving ∧ t.caller ≠ .left

def Wired (t : Call α) : Prop := t.callee ≠ .absent ∧ t.callee ≠ .gone

def Hears (t : Call α) : Way → Prop
  | .there => t.Stays
  | .back => t.callee = .dialled ∨ t.callee = .reached

def Speaks (t : Call α) : Way → Prop
  | .there => t.callee = .reached
  | .back => t.Stays

/-- What a caller that leaves has not been given is dropped. -/
def dismissed (t : Call α) : Call α := { t with caller := .leaving, there := [], back := [] }

end Call

section moves

variable [DecidableEq ι]

def Desk.empty (turn : ℕ) : Desk ι α := ⟨fun _ => none, ∅, [], 0, 0, turn⟩

def Desk.put (e : Desk ι α) (i : ι) (t : Call α) : Desk ι α :=
  { e with calls := fun j => if j = i then some t else e.calls j }

def Desk.drop (e : Desk ι α) (i : ι) : Desk ι α :=
  { e with calls := fun j => if j = i then none else e.calls j }

theorem Desk.put_self {e : Desk ι α} {i : ι} {t : Call α} (h : e.calls i = some t) :
    e.put i t = e := by
  obtain ⟨calls,used,line,present,busy,turn⟩ := e
  simp only [put, mk.injEq, and_true]
  funext j
  by_cases hj : j = i
  · rw [if_pos hj, hj]
    exact h.symm
  · rw [if_neg hj]

def Desk.breakOff (e : Desk ι α) (i : ι) (t : Call α) : Party → Desk ι α
  | .caller => { e.put i t.dismissed with line := e.line.erase i }
  | .callee => e.put i { t with callee := .failing }

def Desk.dialling (lim : Limits) (e : Desk ι α) (i : ι) (t : Call α) : Desk ι α :=
  { e.put i { t with peer := some (e.turn % lim.peers) } with turn := e.turn % lim.peers+1 }

/-- The first in line may be served. -/
structure Next (lim : Limits) (e : Desk ι α) (i : ι) (t : Call α) : Prop where
  first : e.line.head? = some i
  free : e.busy < lim.busy
  peers : 0 < lim.peers
  call : e.calls i = some t
  waits : t.caller = .waits

inductive Move (lim : Limits) : Desk ι α → List (Event ι α) → Desk ι α → Prop
  | enter {e : Desk ι α} {i : ι} (hi : i ∉ e.used) (hroom : e.present < lim.present) :
      Move lim e [] { e.put i .fresh with used := insert i e.used, present := e.present+1 }
  | get {e : Desk ι α} {i : ι} {t : Call α} {d : Way} (xss : List (List α))
      (ht : e.calls i = some t) (hd : t.Hears d) :
      Move lim e (xss.map (.got i d.source)) (e.put i (t.hold (t.held d ++ xss.flatten) d))
  | getBroken {e : Desk ι α} {i : ι} {t : Call α} {d : Way} (xss : List (List α))
      (ht : e.calls i = some t) (hd : t.Hears d) :
      Move lim e (xss.map (.got i d.source)) (e.breakOff i t d.source)
  | give {e : Desk ι α} {i : ι} {t : Call α} {d : Way} (xss : List (List α)) (ys : List α)
      (ht : e.calls i = some t) (hd : t.Speaks d) (hx : t.held d = xss.flatten ++ ys) :
      Move lim e (xss.map (.gave i d.target)) (e.put i (t.hold ys d))
  | giveBroken {e : Desk ι α} {i : ι} {t : Call α} {d : Way} (xss : List (List α))
      (ys : List α) (ht : e.calls i = some t) (hd : t.Speaks d)
      (hx : t.held d = xss.flatten ++ ys) :
      Move lim e (xss.map (.gave i d.target)) (e.breakOff i t d.target)
  | ask {e : Desk ι α} {i : ι} {t : Call α} (ht : e.calls i = some t)
      (hs : t.caller = .came) :
      Move lim e [] { e.put i { t with caller := .waits } with line := e.line ++ [i] }
  | misdial {e : Desk ι α} {i : ι} {t : Call α} (h : Next lim e i t) :
      Move lim e [] (e.dialling lim i t)
  | dial {e : Desk ι α} {i : ι} {t : Call α} (h : Next lim e i t) :
      Move lim e [] { e.dialling lim i { t with caller := .served, callee := .dialled } with
        line := e.line.erase i, busy := e.busy+1 }
  | refused {e : Desk ι α} {i : ι} {t : Call α} (h : Next lim e i t) :
      Move lim e [] { e.dialling lim i { t with callee := .gone } with busy := e.busy-1 }
  | reach {e : Desk ι α} {i : ι} {t : Call α} (ht : e.calls i = some t)
      (hs : t.callee = .dialled) : Move lim e [] (e.put i { t with callee := .reached })
  | hangUp {e : Desk ι α} {i : ι} {t : Call α} (ht : e.calls i = some t) (hs : t.Wired) :
      Move lim e [] { e.put i { t with callee := .gone } with busy := e.busy-1 }
  | dismiss {e : Desk ι α} {i : ι} {t : Call α} (ht : e.calls i = some t)
      (hs : t.caller ≠ .left) : Move lim e [] (e.breakOff i t .caller)
  | expire {e : Desk ι α} {i : ι} {t : Call α} (ht : e.calls i = some t)
      (hs : t.caller ≠ .left) : Move lim e [] (e.put i t.dismissed)
  | leave {e : Desk ι α} {i : ι} {t : Call α} (ht : e.calls i = some t)
      (hs : t.caller = .leaving) (hw : ¬ t.Wired) :
      Move lim e [] { e.put i { t with caller := .left } with present := e.present-1 }
  | forget {e : Desk ι α} {i : ι} {t : Call α} (ht : e.calls i = some t)
      (hs : t.caller = .left) (hw : ¬ t.Wired) : Move lim e [] (e.drop i)

/-- The history of what was said and what was passed on. -/
inductive Run (lim : Limits) (e : Desk ι α) : List (Event ι α) → Desk ι α → Prop
  | refl : Run lim e [] e
  | tail {f g : Desk ι α} {xs ys : List (Event ι α)} (h : Run lim e xs f)
      (hm : Move lim f ys g) : Run lim e (xs ++ ys) g

theorem Run.single {lim : Limits} {e f : Desk ι α} {xs : List (Event ι α)}
    (h : Move lim e xs f) : Run lim e xs f := by
  rw [← List.nil_append xs]
  exact .tail .refl h

theorem Run.trans {lim : Limits} {e f g : Desk ι α} {xs ys : List (Event ι α)}
    (h : Run lim e xs f) (h' : Run lim f ys g) : Run lim e (xs ++ ys) g := by
  induction h' with
  | refl =>
    rw [List.append_nil]
    exact h
  | tail _ hm ih =>
    rw [← List.append_assoc]
    exact .tail ih hm

end moves

end TcpFunnel.Exchange
