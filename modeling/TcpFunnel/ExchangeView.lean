import TcpFunnel.PipeFlow
import TcpFunnel.Library.Exchange

/-!
# The proxy as an exchange

A client is a caller, its upstream the callee, and what the buffers of a pipe
hold is one sequence of bytes. A client that a callback is about to close is
leaving already, and an upstream that it is about to close is failing.
-/

set_option autoImplicit false

namespace TcpFunnel.ExchangeView
open TcpFunnel.BufferPool TcpFunnel.Connection TcpFunnel.Actions TcpFunnel.Invariants
open TcpFunnel.QueueInvariant TcpFunnel.RecordInvariant TcpFunnel.BufferInvariant
open TcpFunnel.StageInvariant TcpFunnel.PipeFlow TcpFunnel.Exchange

def dismissedBy : Busy → Option ConnId
  | .closing c => some c
  | .idle | .filling .. | .losing .. | .over => none

def failingBy : Busy → Option ConnId
  | .losing c _ => some c
  | .idle | .filling .. | .closing _ | .over => none

def callerOf (busy : Busy) (c : ConnId) (r : XtpConn) : CallerState :=
  if r.status = .close then .left
  else if dismissedBy busy = some c then .leaving
  else match r.status with
    | .none => .came
    | .waiting => .waits
    | .working => .served
    | .connect | .timeout | .close | .error => .leaving

def calleeOf (busy : Busy) (c : ConnId) (r : XtpConn) : CalleeState :=
  match r.upcStatus with
  | .none => .absent
  | .connect => if failingBy busy = some c then .failing else .dialled
  | .working => if failingBy busy = some c then .failing else .reached
  | .waiting | .timeout | .close | .error => .gone

def wayOf : Pipe → Way
  | .pipe1 => .there
  | .pipe2 => .back

def partyOf : Side → Party
  | .client => .caller
  | .upstream => .callee

/-- What a client that leaves has not been sent does not count. -/
def heldOf (s : Stage) (c : ConnId) (r : XtpConn) (p : Pipe) : List UInt8 :=
  match callerOf s.busy c r with
  | .came | .waits | .served => unsent s.w c p
  | .leaving | .left => []

def callOf (s : Stage) (c : ConnId) (r : XtpConn) : Call UInt8 where
  caller := callerOf s.busy c r
  callee := calleeOf s.busy c r
  peer := r.upcf
  there := heldOf s c r .pipe1
  back := heldOf s c r .pipe2

/-- A client that has been given up while it waits is not in line. -/
def lineOf (s : Stage) : List ConnId :=
  match dismissedBy s.busy with
  | none => s.w.ln.cqWaiting
  | some c =>
    if (s.w.conns.get c).any (fun r => r.status = .waiting) then s.w.ln.cqWaiting.erase c
    else s.w.ln.cqWaiting

def desk (s : Stage) : Desk ConnId UInt8 where
  calls c := (s.w.conns.get c).map (callOf s c)
  used := {c | c < s.w.conns.next}
  line := lineOf s
  present := s.w.ln.cCount
  busy := s.w.ln.workingNum
  turn := s.w.ln.srvcf.upstreamIndex

def limits (s : Stage) : Limits where
  present := s.w.ln.srvcf.accessMax
  busy := s.w.ln.srvcf.workingNumMax
  peers := s.w.ln.srvcf.upstream.length

def event (t : Transfer) : Event ConnId UInt8 :=
  match t.kind with
  | .recv => .got t.sock.owner (partyOf t.sock.side) t.bytes
  | .send => .gave t.sock.owner (partyOf t.sock.side) t.bytes

@[simp] theorem source_party (p : Pipe) : (wayOf p).source = partyOf (source p) := by
  cases p <;> rfl

@[simp] theorem target_party (p : Pipe) : (wayOf p).target = partyOf (target p) := by
  cases p <;> rfl

theorem receipts_event (c : ConnId) (p : Pipe) (chunks : List (List UInt8)) :
    (receipts ⟨c, source p⟩ chunks).map event = chunks.map (.got c (wayOf p).source) := by
  simp [receipts, event]

def pieces (data : ℕ → UInt8) : ℕ → List ℕ → List (List UInt8)
  | _, [] => []
  | off, k::ks => Memory.read data off k :: pieces data (off+k) ks

theorem sends_event (c : ConnId) (p : Pipe) (data : ℕ → UInt8) (off : ℕ) (ks : List ℕ) :
    (sends ⟨c, target p⟩ data off ks).map event =
      (pieces data off ks).map (.gave c (wayOf p).target) := by
  induction ks generalizing off with
  | nil => rfl
  | cons k ks ih => simp [sends, pieces, event, ih]

theorem pieces_flatten (data : ℕ → UInt8) (off : ℕ) (ks : List ℕ) :
    (pieces data off ks).flatten = Memory.read data off ks.sum := by
  induction ks generalizing off with
  | nil => simp [pieces]
  | cons k ks ih => rw [pieces, List.flatten_cons, ih, List.sum_cons, Memory.read_add]

section states

variable {busy busy' : Busy} {s t : Stage} {c d : ConnId} {p : Pipe} {r r' : XtpConn}

theorem callerOf_left : callerOf busy c r = .left ↔ r.status = .close := by
  unfold callerOf
  constructor
  · intro h
    by_contra hs
    rw [if_neg hs] at h
    split at h
    · cases h
    · split at h <;> cases h
  · intro hs
    rw [if_pos hs]

theorem callerOf_dismissed (hb : dismissedBy busy = some c) (hs : r.status ≠ .close) :
    callerOf busy c r = .leaving := by
  unfold callerOf
  rw [if_neg hs, if_pos hb]

theorem callerOf_kept (hb : dismissedBy busy ≠ some c) (hs : r.status ≠ .close) :
    callerOf busy c r = match r.status with
      | .none => .came
      | .waiting => .waits
      | .working => .served
      | .connect | .timeout | .close | .error => .leaving := by
  unfold callerOf
  rw [if_neg hs, if_neg hb]

theorem heldOf_stays (h : (callOf s c r).Stays) : heldOf s c r p = unsent s.w c p := by
  obtain ⟨h1,h2⟩ := h
  unfold heldOf
  cases hc : callerOf s.busy c r with
  | leaving => exact absurd hc h1
  | left => exact absurd hc h2
  | _ => rfl

theorem heldOf_leaves (h : ¬ (callOf s c r).Stays) : heldOf s c r p = [] := by
  unfold heldOf
  cases hc : callerOf s.busy c r with
  | leaving => rfl
  | left => rfl
  | _ => exact absurd ⟨by simp [callOf, hc], by simp [callOf, hc]⟩ h

@[simp] theorem callOf_held : (callOf s c r).held (wayOf p) = heldOf s c r p := by
  cases p <;> rfl

theorem callOf_same (hd : dismissedBy t.busy = some c ↔ dismissedBy s.busy = some c)
    (hf : failingBy t.busy = some c ↔ failingBy s.busy = some c)
    (hu : (callOf s c r).Stays → ∀ p, unsent t.w c p = unsent s.w c p) (hs : r'.status = r.status)
    (hup : r'.upcStatus = r.upcStatus) (hpeer : r'.upcf = r.upcf) :
    callOf t c r' = callOf s c r := by
  have hcaller : callerOf t.busy c r' = callerOf s.busy c r := by
    unfold callerOf
    simp only [hs, hd]
  have hcallee : calleeOf t.busy c r' = calleeOf s.busy c r := by
    unfold calleeOf
    simp only [hup, hf]
  have hheld : ∀ p, heldOf t c r' p = heldOf s c r p := by
    intro p
    by_cases hstays : (callOf s c r).Stays
    · rw [heldOf_stays hstays, heldOf_stays (by rw [Call.Stays, callOf, hcaller]; exact hstays),
        hu hstays p]
    · rw [heldOf_leaves hstays,
        heldOf_leaves (by rw [Call.Stays, callOf, hcaller]; exact hstays)]
  unfold callOf
  rw [hcaller, hcallee, hheld, hheld, hpeer]

theorem desk_same (hconns : t.w.conns = s.w.conns) (hln : t.w.ln = s.w.ln)
    (hcalls : ∀ c r, s.w.conns.get c = some r → callOf t c r = callOf s c r)
    (hline : lineOf t = lineOf s) : desk t = desk s := by
  have heq : (desk t).calls = (desk s).calls := by
    funext c
    simp only [desk, hconns]
    cases hr : s.w.conns.get c with
    | none => rfl
    | some r => exact congrArg some (hcalls c r hr)
  simp only [desk, hline, hln, hconns] at heq ⊢
  rw [heq]

theorem desk_put {x : Call UInt8} (hconns : t.w.conns = s.w.conns.set c r')
    (hcall : callOf t c r' = x)
    (hothers : ∀ d r, d ≠ c → s.w.conns.get d = some r → callOf t d r = callOf s d r) :
    desk t = { (desk s).put c x with
      line := lineOf t, present := t.w.ln.cCount, busy := t.w.ln.workingNum,
      turn := t.w.ln.srvcf.upstreamIndex } := by
  have heq : (desk t).calls = ((desk s).put c x).calls := by
    funext d
    simp only [desk, Desk.put, hconns, Store.set_get]
    by_cases hd : d = c
    · subst hd
      simp [hcall]
    · rw [if_neg hd, if_neg hd]
      cases hr : s.w.conns.get d with
      | none => rfl
      | some r => exact congrArg some (hothers d r hd hr)
  simp only [desk, Desk.put, hconns, Store.set_next] at heq ⊢
  rw [heq]

theorem line_off (h : ∀ c, dismissedBy s.busy = some c → c ∉ s.w.ln.cqWaiting) :
    lineOf s = s.w.ln.cqWaiting := by
  unfold lineOf
  cases hd : dismissedBy s.busy with
  | none => rfl
  | some c =>
    dsimp only
    split
    · exact List.erase_of_not_mem (h c hd)
    · rfl

theorem dismissedBy_closing : dismissedBy busy = some c ↔ busy = .closing c := by
  cases busy <;> simp [dismissedBy]

theorem line_due (hq : Queue s) (hdue : s.due = true) : lineOf s = s.w.ln.cqWaiting :=
  line_off fun c hc => hq.due hdue c (dismissedBy_closing.mp hc)

theorem line_put (hd : dismissedBy t.busy = dismissedBy s.busy) (hr : s.w.conns.get c = some r)
    (hconns : t.w.conns = s.w.conns.set c r') (hs : r'.status = r.status)
    (hq : t.w.ln.cqWaiting = s.w.ln.cqWaiting) : lineOf t = lineOf s := by
  unfold lineOf
  rw [hd, hq, hconns]
  cases dismissedBy s.busy with
  | none => rfl
  | some d =>
    by_cases hdc : d = c
    · subst hdc
      simp [hr, hs]
    · simp [hdc]

end states

end TcpFunnel.ExchangeView
