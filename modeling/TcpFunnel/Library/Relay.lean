import Mathlib.Data.List.Infix

/-!
# Relays

A relay has taken in a sequence, given out a part of it, and holds another
part to be given out. It is lossless if it holds all that is left, in order
if what it holds comes next, and sound if what it has given out came first.
-/

set_option autoImplicit false

namespace TcpFunnel

structure Relay (α : Type*) where
  arrived : List α
  departed : List α
  held : List α

namespace Relay

variable {α : Type*} {s t : Relay α} {xs ys : List α}

def Lossless (s : Relay α) : Prop := s.departed ++ s.held = s.arrived
def InOrder (s : Relay α) : Prop := s.departed ++ s.held <+: s.arrived
def Sound (s : Relay α) : Prop := s.departed <+: s.arrived

theorem Lossless.inOrder (h : Lossless s) : InOrder s := by
  unfold Lossless at h
  unfold InOrder
  rw [h]

theorem InOrder.sound (h : InOrder s) : Sound s := (List.prefix_append _ _).trans h

theorem Lossless.fill (h : Lossless s) (hin : t.arrived = s.arrived ++ xs)
    (hout : t.departed = s.departed) (hheld : t.held = s.held ++ xs) : Lossless t := by
  unfold Lossless at h ⊢
  rw [hin, hout, hheld, ← List.append_assoc, h]

/-- What has been taken in is not held, which puts an end to the sequence. -/
theorem InOrder.lose (h : InOrder s) (hin : t.arrived = s.arrived ++ xs)
    (hout : t.departed = s.departed) (hheld : t.held = s.held) : InOrder t := by
  unfold InOrder at h ⊢
  rw [hin, hout, hheld]
  exact h.trans (List.prefix_append _ _)

theorem Sound.keep (h : Sound s) (hin : t.arrived = s.arrived)
    (hout : t.departed = s.departed) : Sound t := by
  unfold Sound at h ⊢
  rw [hin, hout]
  exact h

theorem Sound.receive (h : Sound s) (hin : t.arrived = s.arrived ++ xs)
    (hout : t.departed = s.departed) : Sound t := by
  unfold Sound at h ⊢
  rw [hin, hout]
  exact h.trans (List.prefix_append _ _)

theorem Lossless.drain (h : Lossless s) (hin : t.arrived = s.arrived)
    (hout : t.departed = s.departed ++ xs) (hheld : s.held = xs ++ t.held) : Lossless t := by
  unfold Lossless at h ⊢
  rw [hin, hout, List.append_assoc, ← hheld, h]

theorem InOrder.drain (h : InOrder s) (hin : t.arrived = s.arrived)
    (hout : t.departed = s.departed ++ xs) (hheld : s.held = xs ++ t.held) : InOrder t := by
  unfold InOrder at h ⊢
  rw [hin, hout, List.append_assoc, ← hheld]
  exact h

/-- What has been given out is still held, and may not be given out again. -/
theorem InOrder.leak (h : InOrder s) (hin : t.arrived = s.arrived)
    (hout : t.departed = s.departed ++ xs) (hheld : s.held = xs ++ ys) : Sound t := by
  unfold InOrder at h
  unfold Sound
  rw [hheld, ← List.append_assoc] at h
  rw [hin, hout]
  exact (List.prefix_append _ _).trans h

/-- A lossless relay that holds nothing has given out everything. -/
theorem Lossless.complete (h : Lossless s) (hheld : s.held = []) : s.departed = s.arrived := by
  unfold Lossless at h
  rw [← h, hheld, List.append_nil]

end Relay

end TcpFunnel
