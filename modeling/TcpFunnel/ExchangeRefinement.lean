import TcpFunnel.ExchangeView
import TcpFunnel.Runs

/-!
# The proxy refines the exchange

Every action of the proxy is a move of the exchange or none at all, and has
transferred what the move says. So whatever the proxy receives and sends, in
whatever order the events come, an exchange could have got and given.
-/

set_option autoImplicit false

namespace TcpFunnel.ExchangeRefinement
open TcpFunnel.BufferPool TcpFunnel.Connection TcpFunnel.EventLoop TcpFunnel.Reachability
open TcpFunnel.Actions TcpFunnel.Invariants TcpFunnel.QueueInvariant TcpFunnel.RecordInvariant
open TcpFunnel.BufferInvariant TcpFunnel.StageInvariant TcpFunnel.StepSimulation
open TcpFunnel.PipeFlow TcpFunnel.Exchange TcpFunnel.ExchangeView TcpFunnel.Runs

/-- The scheduler does not run while an upstream is about to be closed. -/
def Settled (s : Stage) : Prop := s.due = true → failingBy s.busy = none

variable {o : Option ConnId} {s t : Stage} {c : ConnId} {p : Pipe} {r r' : XtpConn}
variable {w : World} {fs : List Failure} {is : List Incident} {b : BufId} {rb : XtpBuf}

theorem act_settled (h : Act o s t) (hS : Settled s) : Settled t := by
  cases h with
  | answers | mallocs | countMax | addBlock | stopUpcTimer | refuse => exact hS
  | enqueue => exact fun _ => rfl
  | @closeUpstream _ busy =>
    intro _
    cases busy <;> rfl
  | _ => exact fun hdue => Bool.noConfusion hdue

section calls

theorem stays_of (hI : Inv s) (hr : s.w.conns.get c = some r) (hb : dismissedBy s.busy ≠ some c)
    (hs : r.status ≠ .close) : (callOf s c r).Stays := by
  have hne : r.status ≠ .timeout ∧ r.status ≠ .connect ∧ r.status ≠ .error := by
    rcases (hI.records.phase c r hr).status with h | h | h | h | ⟨h,hbusy⟩
    · simp [h]
    · simp [h]
    · simp [h]
    · exact absurd h hs
    · exact absurd (dismissedBy_closing.mpr hbusy) hb
  unfold Call.Stays callOf
  rw [callerOf_kept hb hs]
  cases hst : r.status <;> simp_all

theorem open_not_close (hI : Inv s) (hr : s.w.conns.get c = some r) (ho : r.isOpen) :
    r.status ≠ .close := by
  rcases (hI.records.phase c r hr).ofOpen ho with h | h <;> simp [h]

theorem readable_not_close (hI : Inv s) (hr : s.w.conns.get c = some r) (hp : Readable r p) :
    r.status ≠ .close := by
  cases p with
  | pipe1 => exact hp
  | pipe2 => exact open_not_close hI hr hp

theorem writable_not_close (hI : Inv s) (hr : s.w.conns.get c = some r) (hp : Writable r p) :
    r.status ≠ .close := by
  cases p with
  | pipe1 => exact open_not_close hI hr (by simp [XtpConn.isOpen, show r.upcStatus = _ from hp])
  | pipe2 => exact hp

theorem hears_of (hI : Inv s) (hr : s.w.conns.get c = some r) (hb : dismissedBy s.busy ≠ some c)
    (hf : failingBy s.busy ≠ some c) (hp : Readable r p) : (callOf s c r).Hears (wayOf p) := by
  cases p with
  | pipe1 => exact stays_of hI hr hb hp
  | pipe2 =>
    rcases isOpen_iff.mp hp with h | h
    · exact .inl (by simp [callOf, calleeOf, h, hf])
    · exact .inr (by simp [callOf, calleeOf, h, hf])

theorem speaks_of (hI : Inv s) (hr : s.w.conns.get c = some r) (hb : dismissedBy s.busy ≠ some c)
    (hf : failingBy s.busy ≠ some c) (hp : Writable r p) : (callOf s c r).Speaks (wayOf p) := by
  cases p with
  | pipe1 =>
    have hup : r.upcStatus = .working := hp
    simp [wayOf, Call.Speaks, callOf, calleeOf, hup, hf]
  | pipe2 => exact stays_of hI hr hb hp

theorem wired_iff (hI : Inv s) (hr : s.w.conns.get c = some r) :
    (callOf s c r).Wired ↔ r.isOpen := by
  rw [isOpen_iff]
  unfold Call.Wired callOf calleeOf
  rcases (hI.records.phase c r hr).upcStatus with h | h | h | h
  · simp [h]
  · by_cases hf : failingBy s.busy = some c <;> simp [h, hf]
  · by_cases hf : failingBy s.busy = some c <;> simp [h, hf]
  · simp [h]

theorem callOf_hold {ys : List UInt8} (hbusy : dismissedBy t.busy = dismissedBy s.busy)
    (hf : failingBy t.busy = failingBy s.busy) (hst : (callOf s c r).Stays)
    (hp : unsent t.w c p = ys) (hq : ∀ q, q ≠ p → unsent t.w c q = unsent s.w c q) :
    callOf t c r = (callOf s c r).hold ys (wayOf p) := by
  have hcaller : callerOf t.busy c r = callerOf s.busy c r := by
    unfold callerOf
    rw [hbusy]
  have hcallee : calleeOf t.busy c r = calleeOf s.busy c r := by
    unfold calleeOf
    rw [hf]
  have hst' : (callOf t c r).Stays := by
    rw [Call.Stays, callOf, hcaller]
    exact hst
  cases p with
  | pipe1 =>
    have h2 : heldOf t c r .pipe2 = heldOf s c r .pipe2 := by
      rw [heldOf_stays hst, heldOf_stays hst', hq _ (by simp)]
    have h1 : heldOf t c r .pipe1 = ys := by rw [heldOf_stays hst', hp]
    simp [callOf, hcaller, hcallee, h1, h2, Call.hold, wayOf]
  | pipe2 =>
    have h1 : heldOf t c r .pipe1 = heldOf s c r .pipe1 := by
      rw [heldOf_stays hst, heldOf_stays hst', hq _ (by simp)]
    have h2 : heldOf t c r .pipe2 = ys := by rw [heldOf_stays hst', hp]
    simp [callOf, hcaller, hcallee, h1, h2, Call.hold, wayOf]

theorem callOf_dismissed (hb : dismissedBy t.busy = some c) (hf : failingBy s.busy = none)
    (hup : r'.upcStatus = r.upcStatus) (hpeer : r'.upcf = r.upcf) (hs : r'.status ≠ .close) :
    callOf t c r' = (callOf s c r).dismissed := by
  have hcaller := callerOf_dismissed hb hs
  have hbusy := dismissedBy_closing.mp hb
  have hcallee : calleeOf t.busy c r' = calleeOf s.busy c r := by
    unfold calleeOf
    rw [hf, hbusy, hup]
    rfl
  have hheld : ∀ p, heldOf t c r' p = [] := by
    intro p
    unfold heldOf
    rw [hcaller]
  simp [callOf, hcaller, hcallee, hheld, hpeer, Call.dismissed]

theorem desk_calls (hr : s.w.conns.get c = some r) : (desk s).calls c = some (callOf s c r) := by
  simp [desk, hr]

end calls

section desks

theorem desk_hold {ys : List UInt8} (hr : s.w.conns.get c = some r) (hst : (callOf s c r).Stays)
    (hplain : dismissedBy s.busy = none ∧ dismissedBy t.busy = none)
    (hf : failingBy t.busy = failingBy s.busy) (hconns : t.w.conns = s.w.conns)
    (hln : t.w.ln = s.w.ln) (hp : unsent t.w c p = ys)
    (hothers : ∀ d q, ¬ (d = c ∧ q = p) → unsent t.w d q = unsent s.w d q) :
    desk t = (desk s).put c ((callOf s c r).hold ys (wayOf p)) := by
  have hd : dismissedBy t.busy = dismissedBy s.busy := hplain.2.trans hplain.1.symm
  have hput : t.w.conns = s.w.conns.set c r := by rw [hconns, Store.set_self hr]
  have hcall := callOf_hold hd hf hst hp fun q hq => hothers c q (fun h => hq h.2)
  rw [desk_put hput hcall fun d r' hdc hr' =>
    callOf_same (by rw [hd]) (by rw [hf]) (fun _ q => hothers d q (fun h => hdc h.1)) rfl rfl rfl]
  rw [line_put hd hr hput rfl (by rw [hln]), hln]
  rfl

theorem desk_broken {e : Side} (hI : Inv s) (hr : s.w.conns.get c = some r)
    (hplain : dismissedBy s.busy = none) (hf : failingBy s.busy = none)
    (hs : r.status ≠ .close) (hopen : e = .upstream → r.isOpen) (hbusy : t.busy = broken c p e)
    (hconns : t.w.conns = s.w.conns) (hln : t.w.ln = s.w.ln)
    (hunsent : ∀ d q, unsent t.w d q = unsent s.w d q) :
    desk t = (desk s).breakOff c (callOf s c r) (partyOf e) := by
  have hput : t.w.conns = s.w.conns.set c r := by rw [hconns, Store.set_self hr]
  have hothers : ∀ d r', d ≠ c → s.w.conns.get d = some r' → callOf t d r' = callOf s d r' := by
    intro d r' hdc hr'
    refine callOf_same ?_ ?_ (fun _ q => hunsent d q) rfl rfl rfl
    · rw [hbusy, hplain]
      cases e <;> simp [broken, dismissedBy, Ne.symm hdc]
    · rw [hbusy, hf]
      cases e <;> simp [broken, failingBy, Ne.symm hdc]
  have hline : lineOf s = s.w.ln.cqWaiting := line_off fun d hd => by simp [hplain] at hd
  cases e with
  | client =>
    have hd : dismissedBy t.busy = some c := by rw [hbusy]; rfl
    rw [desk_put hput (callOf_dismissed hd hf rfl rfl hs) hothers]
    have hcut : lineOf t = s.w.ln.cqWaiting.erase c := by
      unfold lineOf
      rw [hd, hconns, hln]
      by_cases hw : r.status = .waiting
      · simp [hr, hw]
      · have hoff : c ∉ s.w.ln.cqWaiting := by
          intro hm
          rcases (hI.queue.mem c hm r hr).1 with h | h
          · exact hw h
          · simp [dismissedBy_closing.mpr h] at hplain
        simp [hr, hw, List.erase_of_not_mem hoff]
    rw [hcut, hln, ← hline]
    rfl
  | upstream =>
    have hd : dismissedBy t.busy = dismissedBy s.busy := by rw [hbusy, hplain]; rfl
    have hcallee : calleeOf t.busy c r = .failing := by
      rw [hbusy]
      rcases isOpen_iff.mp (hopen rfl) with h | h <;> simp [calleeOf, h, broken, failingBy]
    have hcall : callOf t c r = { callOf s c r with callee := .failing } := by
      have hcaller : callerOf t.busy c r = callerOf s.busy c r := by
        unfold callerOf
        rw [hd]
      have hheld : ∀ q, heldOf t c r q = heldOf s c r q := by
        intro q
        unfold heldOf
        rw [hcaller, hunsent]
      simp [callOf, hcaller, hcallee, hheld]
    rw [desk_put hput hcall hothers, line_put hd hr hput rfl (by rw [hln]), hln]
    rfl

theorem desk_quiet (hr : s.w.conns.get c = some r) (hput : t.w.conns = s.w.conns.set c r')
    (hd : dismissedBy t.busy = dismissedBy s.busy) (hf : failingBy t.busy = failingBy s.busy)
    (hs : r'.status = r.status) (hup : r'.upcStatus = r.upcStatus) (hpeer : r'.upcf = r.upcf)
    (hln : t.w.ln = s.w.ln)
    (hunsent : ∀ d x, s.w.conns.get d = some x → (callOf s d x).Stays →
      ∀ q, unsent t.w d q = unsent s.w d q) : desk t = desk s := by
  have hcall : callOf t c r' = callOf s c r :=
    callOf_same (by rw [hd]) (by rw [hf]) (hunsent c r hr) hs hup hpeer
  rw [desk_put hput hcall fun d x _ hx =>
    callOf_same (by rw [hd]) (by rw [hf]) (hunsent d x hx) rfl rfl rfl]
  rw [line_put hd hr hput hs (by rw [hln]), hln, Desk.put_self (desk_calls hr)]
  rfl

end desks

/-- The action is a move, or none, and its transfers are those of the move. -/
def Explained (s t : Stage) : Prop :=
  ∃ es, Run (limits s) (desk s) es (desk t) ∧ t.w.io.map event = s.w.io.map event ++ es

theorem explained_quiet (hdesk : desk t = desk s) (hio : t.w.io = s.w.io) : Explained s t := by
  refine ⟨[], ?_, by rw [hio, List.append_nil]⟩
  rw [hdesk]
  exact .refl

theorem explained_move {es : List (Exchange.Event ConnId UInt8)} {ts : List Transfer}
    (hm : Move (limits s) (desk s) es (desk t)) (hio : t.w.io = s.w.io ++ ts)
    (hts : ts.map event = es) : Explained s t :=
  ⟨es, .single hm, by rw [hio, List.map_append, hts]⟩

theorem explained_silent (hm : Move (limits s) (desk s) [] (desk t)) (hio : t.w.io = s.w.io) :
    Explained s t :=
  ⟨[], .single hm, by rw [hio, List.append_nil]⟩

section transfers

theorem fill_explained {chunks : List (List UInt8)}
    (hI : Inv ⟨w, .filling c p false, false, fs, is⟩) (hr : w.conns.get c = some r)
    (hb : (r.pipe p).getLast? = some b) (hrb : w.heap.bufs.get b = some rb) (full : Bool) :
    Explained ⟨w, .filling c p false, false, fs, is⟩
      ⟨filled w c p b rb chunks, .filling c p full, false, fs, is⟩ := by
  have hp : Readable r p := hI.records.readable c p false rfl r hr
  have hmem : b ∈ w.pipes c p := mem_pipes hr (List.mem_of_mem_getLast? hb)
  have hheld : unsent (filled w c p b rb chunks) c p = unsent w c p ++ chunks.flatten := by
    obtain ⟨h1,h2⟩ := unsent_last (filled w c p b rb chunks) hI.buffers hr hb hrb rfl rfl rfl
    obtain ⟨rb',hrb',hbuf⟩ := (hI.buffers.shape c p).each b hmem
    cases hrb.symm.trans hrb'
    have hle := hbuf.posLast
    have hgrow := Memory.read_extend rb.data rb.pos (rb.last-rb.pos) chunks.flatten
    rw [show rb.pos+(rb.last-rb.pos) = rb.last by omega,
      show rb.last-rb.pos+chunks.flatten.length = rb.last+chunks.flatten.length-rb.pos by omega]
      at hgrow
    rw [h2, h1, hgrow, List.append_assoc]
  have hst := stays_of hI hr (by simp [dismissedBy]) (readable_not_close hI hr hp)
  have hdesk := desk_hold (s := ⟨w, .filling c p false, false, fs, is⟩)
    (t := ⟨filled w c p b rb chunks, .filling c p full, false, fs, is⟩) hr hst
    ⟨rfl, rfl⟩ rfl rfl rfl hheld fun d q hne => unsent_other hI.buffers rfl hmem rfl rfl hne
  refine explained_move ?_ rfl (receipts_event c p chunks)
  rw [hdesk]
  have hmove : Move (limits ⟨w, .filling c p false, false, fs, is⟩) _ _ _ := .get chunks
    (desk_calls hr) (hears_of hI hr (by simp [dismissedBy]) (by simp [failingBy]) hp)
  rw [callOf_held, heldOf_stays hst] at hmove
  exact hmove

theorem lose_explained {chunks : List (List UInt8)} {js : List Incident}
    (hI : Inv ⟨w, .filling c p false, false, fs, is⟩) (hr : w.conns.get c = some r)
    (hb : (r.pipe p).getLast? = some b) (hrb : w.heap.bufs.get b = some rb) :
    Explained ⟨w, .filling c p false, false, fs, is⟩
      ⟨received w c p b rb chunks, broken c p (source p), false, fs, js⟩ := by
  have hp : Readable r p := hI.records.readable c p false rfl r hr
  have hmem : b ∈ w.pipes c p := mem_pipes hr (List.mem_of_mem_getLast? hb)
  have hunsent : ∀ d q, unsent (received w c p b rb chunks) d q = unsent w d q := by
    intro d q
    by_cases hcp : d = c ∧ q = p
    · obtain ⟨rfl,rfl⟩ := hcp
      obtain ⟨h1,h2⟩ := unsent_last (received w d q b rb chunks) hI.buffers hr hb hrb rfl rfl rfl
      obtain ⟨rb',hrb',hbuf⟩ := (hI.buffers.shape d q).each b hmem
      cases hrb.symm.trans hrb'
      have hle := hbuf.posLast
      have hsame : Memory.read (Memory.write rb.data rb.last chunks.flatten) rb.pos
          (rb.last-rb.pos) = Memory.read rb.data rb.pos (rb.last-rb.pos) :=
        Memory.read_write_before _ _ _ _ _ (by omega)
      rw [h2, h1, hsame]
    · exact unsent_other hI.buffers rfl hmem rfl rfl hcp
  have hopen : source p = .upstream → r.isOpen := by
    cases p with
    | pipe1 => exact fun h => by cases h
    | pipe2 => exact fun _ => hp
  have hdesk := desk_broken (s := ⟨w, .filling c p false, false, fs, is⟩)
    (t := ⟨received w c p b rb chunks, broken c p (source p), false, fs, js⟩) hI hr rfl rfl
    (readable_not_close hI hr hp) hopen rfl rfl rfl hunsent
  refine explained_move ?_ rfl (receipts_event c p chunks)
  rw [hdesk, ← source_party]
  exact .getBroken chunks (desk_calls hr) (hears_of hI hr (by simp [dismissedBy])
    (by simp [failingBy]) hp)

theorem unsent_drained {ks : List ℕ} (hI : Inv s) (hr : s.w.conns.get c = some r)
    (hb : (r.pipe p).head? = some b) (hrb : s.w.heap.bufs.get b = some rb)
    (hks : rb.pos+ks.sum ≤ rb.last) :
    unsent s.w c p = Memory.read rb.data rb.pos ks.sum ++
      unsent (drained s.w c p b rb ks) c p := by
  obtain ⟨h1,h2⟩ := unsent_head (drained s.w c p b rb ks) hI.buffers hr hb hrb rfl rfl rfl
  have hsplit := Memory.read_split rb.data rb.pos ks.sum (rb.last-rb.pos) (by omega)
  rw [h1, h2, hsplit, List.append_assoc, Nat.sub_sub]

theorem drain_explained {ks : List ℕ} (hI : Inv ⟨w, .idle, false, fs, is⟩)
    (hr : w.conns.get c = some r) (hp : Writable r p) (hb : (r.pipe p).head? = some b)
    (hrb : w.heap.bufs.get b = some rb) (hks : rb.pos+ks.sum ≤ rb.last) :
    Explained ⟨w, .idle, false, fs, is⟩ ⟨drained w c p b rb ks, .idle, false, fs, is⟩ := by
  have hmem : b ∈ w.pipes c p := mem_pipes hr (List.mem_of_mem_head? hb)
  have hst := stays_of hI hr (by simp [dismissedBy]) (writable_not_close hI hr hp)
  have hdesk := desk_hold (s := ⟨w, .idle, false, fs, is⟩)
    (t := ⟨drained w c p b rb ks, .idle, false, fs, is⟩) hr hst
    ⟨rfl, rfl⟩ rfl rfl rfl rfl fun d q hne => unsent_other hI.buffers rfl hmem rfl rfl hne
  refine explained_move ?_ rfl (sends_event c p rb.data rb.pos ks)
  rw [hdesk]
  refine .give (pieces rb.data rb.pos ks) _ (desk_calls hr)
    (speaks_of hI hr (by simp [dismissedBy]) (by simp [failingBy]) hp) ?_
  rw [callOf_held, heldOf_stays hst, pieces_flatten]
  exact unsent_drained hI hr hb hrb hks

theorem leak_explained {ks : List ℕ} (hI : Inv ⟨w, .idle, false, fs, is⟩)
    (hr : w.conns.get c = some r) (hp : Writable r p) (hb : (r.pipe p).head? = some b)
    (hrb : w.heap.bufs.get b = some rb) (hks : rb.pos+ks.sum ≤ rb.last) :
    Explained ⟨w, .idle, false, fs, is⟩
      ⟨delivered w c p rb ks, broken c p (target p), false, fs, is⟩ := by
  have hst := stays_of hI hr (by simp [dismissedBy]) (writable_not_close hI hr hp)
  have hopen : target p = .upstream → r.isOpen := by
    cases p with
    | pipe1 => exact fun _ => isOpen_iff.mpr (.inr hp)
    | pipe2 => exact fun h => by cases h
  have hdesk := desk_broken (s := ⟨w, .idle, false, fs, is⟩)
    (t := ⟨delivered w c p rb ks, broken c p (target p), false, fs, is⟩) hI hr rfl rfl
    (writable_not_close hI hr hp) hopen rfl rfl rfl fun _ _ => rfl
  refine explained_move ?_ rfl (sends_event c p rb.data rb.pos ks)
  rw [hdesk, ← target_party]
  refine .giveBroken (pieces rb.data rb.pos ks) (unsent (drained w c p b rb ks) c p) (desk_calls hr)
    (speaks_of hI hr (by simp [dismissedBy]) (by simp [failingBy]) hp) ?_
  rw [callOf_held, heldOf_stays hst, pieces_flatten]
  exact unsent_drained hI hr hb hrb hks

theorem unlink_explained {busy : Busy} (hI : Inv ⟨w, busy, false, fs, is⟩)
    (hr : w.conns.get c = some r) (hb : (r.pipe p).head? = some b)
    (hrb : w.heap.bufs.get b = some rb)
    (hbusy : (busy = .idle ∧ rb.pos = rb.endPos) ∨ busy = .closing c) :
    Explained ⟨w, busy, false, fs, is⟩ ⟨unlinked w c p r b, busy, false, fs, is⟩ := by
  have hold := unsent_unlinked (s := ⟨w, busy, false, fs, is⟩) hr hb
  refine explained_quiet (desk_quiet hr (unlinked_conns ..) rfl rfl (by simp) (by simp) (by simp)
    (by simp) fun d x hx hst q => ?_) (by simp)
  have heq := hold d q
  by_cases hdq : d = c ∧ q = p
  · obtain ⟨rfl,rfl⟩ := hdq
    rw [if_pos ⟨rfl, rfl⟩] at heq
    rcases hbusy with ⟨-,hend⟩ | hclose
    · obtain ⟨rb',hrb',hbuf⟩ := (hI.buffers.shape d q).each b
        (mem_pipes hr (List.mem_of_mem_head? hb))
      cases hrb.symm.trans hrb'
      have hempty : rb.last-rb.pos = 0 := by
        have hle := hbuf.lastEnd
        omega
      rw [window_of hrb, hempty, Memory.read_zero, List.nil_append] at heq
      exact heq.symm
    · by_cases hs : x.status = .close
      · exact absurd (callerOf_left.mpr hs) hst.2
      · exact absurd (callerOf_dismissed (dismissedBy_closing.mpr hclose) hs) hst.1
  · rw [if_neg hdq, List.nil_append] at heq
    exact heq.symm

end transfers

section control

theorem unsent_put {w' : World} (hr : w.conns.get c = some r) (hput : w'.conns = w.conns.set c r')
    (hp : ∀ q, r'.pipe q = r.pipe q) (hheap : w'.heap = w.heap) (d : ConnId) (q : Pipe) :
    unsent w' d q = unsent w d q :=
  unsent_same (pipes_same hr hput hp d q) fun _ _ => by rw [hheap]

theorem desk_phases {x : CallerState} {y : CalleeState} (hr : s.w.conns.get c = some r)
    (hput : t.w.conns = s.w.conns.set c r') (hp : ∀ q, r'.pipe q = r.pipe q)
    (hheap : t.w.heap = s.w.heap)
    (hd : ∀ d, d ≠ c → (dismissedBy t.busy = some d ↔ dismissedBy s.busy = some d))
    (hf : ∀ d, d ≠ c → (failingBy t.busy = some d ↔ failingBy s.busy = some d))
    (hx : callerOf t.busy c r' = x) (hy : calleeOf t.busy c r' = y)
    (hkeeps : (callOf s c r).Stays ↔ x ≠ .leaving ∧ x ≠ .left) :
    desk t = { (desk s).put c { callOf s c r with caller := x, callee := y, peer := r'.upcf } with
      line := lineOf t, present := t.w.ln.cCount, busy := t.w.ln.workingNum,
      turn := t.w.ln.srvcf.upstreamIndex } := by
  have hunsent := unsent_put hr hput hp hheap
  have hheld : ∀ q, heldOf t c r' q = heldOf s c r q := by
    intro q
    by_cases hst : (callOf s c r).Stays
    · rw [heldOf_stays hst, heldOf_stays (by rw [Call.Stays, callOf, hx]; exact hkeeps.mp hst),
        hunsent]
    · rw [heldOf_leaves hst,
        heldOf_leaves (by rw [Call.Stays, callOf, hx]; exact fun h => hst (hkeeps.mpr h))]
  have hcall : callOf t c r' = { callOf s c r with caller := x, callee := y, peer := r'.upcf } := by
    simp [callOf, hx, hy, hheld]
  exact desk_put hput hcall fun d _ hdc _ =>
    callOf_same (hd d hdc) (hf d hdc) (fun _ q => hunsent d q) rfl rfl rfl

theorem next_of {i : ℕ} (hI : Inv s) (hdue : s.due = true) (hs : Scheduled s.w c)
    (hi : Chosen s.w i) (hr : s.w.conns.get c = some r) :
    Next (limits s) (desk s) c (callOf s c r) ∧
      i = (desk s).turn % (limits s).peers ∧ dismissedBy s.busy ≠ some c := by
  obtain ⟨hwait,-⟩ := scheduled_waiting hI.queue hdue hs hr
  have hb : dismissedBy s.busy ≠ some c := fun h =>
    hI.queue.due hdue c (dismissedBy_closing.mp h) (scheduled_mem hs)
  refine ⟨⟨?_, hs.2, Nat.zero_lt_of_lt hi.1, desk_calls hr, ?_⟩, hi.2, hb⟩
  · exact (congrArg List.head? (line_due hI.queue hdue)).trans hs.1
  · have hcaller := callerOf_kept hb (show r.status ≠ .close by simp [hwait])
    rw [hwait] at hcaller
    exact hcaller

theorem enqueue_explained (hr : w.conns.get c = some r) (hs : r.status = .none) :
    Explained ⟨w, .filling c .pipe1 false, false, fs, is⟩
      ⟨enqueued w c r, .filling c .pipe1 false, true, fs, is⟩ := by
  have hcame : callerOf (.filling c .pipe1 false) c r = .came := by
    simp [callerOf, hs, dismissedBy]
  have hdesk := desk_phases (s := ⟨w, .filling c .pipe1 false, false, fs, is⟩)
    (t := ⟨enqueued w c r, .filling c .pipe1 false, true, fs, is⟩) (x := .waits)
    (y := calleeOf (.filling c .pipe1 false) c r) hr (enqueued_conns w c r)
    (fun q => by cases q <;> rfl) (by simp) (fun _ _ => Iff.rfl) (fun _ _ => Iff.rfl)
    (by simp [callerOf, dismissedBy]) rfl (by simp [Call.Stays, callOf, hcame])
  refine explained_silent ?_ (by simp)
  rw [hdesk]
  exact .ask (desk_calls hr) hcame

theorem misdial_explained {i : ℕ} {leaked : Option ℤ} {due : Bool} {gs : List Failure}
    (hI : Inv s) (hdue : s.due = true) (hs : Scheduled s.w c) (hi : Chosen s.w i)
    (hr : s.w.conns.get c = some r) :
    Explained s ⟨abandoned s.w c r i leaked, s.busy, due, gs, is⟩ := by
  obtain ⟨hnext,hturn,-⟩ := next_of hI hdue hs hi hr
  have hdesk := desk_phases (s := s) (t := ⟨abandoned s.w c r i leaked, s.busy, due, gs, is⟩)
    (x := callerOf s.busy c r) (y := calleeOf s.busy c r) hr (abandoned_conns ..)
    (fun q => by cases q <;> rfl) (by simp) (fun _ _ => Iff.rfl) (fun _ _ => Iff.rfl) rfl rfl
    Iff.rfl
  have hline := line_put (s := s) (t := ⟨abandoned s.w c r i leaked, s.busy, due, gs, is⟩) rfl hr
    (abandoned_conns ..) rfl (by simp)
  refine explained_silent ?_ (by simp)
  rw [hdesk, hline]
  simp only [abandoned_frame]
  subst hturn
  exact .misdial hnext

theorem promote_explained {i : ℕ} {fd : ℤ} {due : Bool} (hI : Inv s) (hS : Settled s)
    (hdue : s.due = true) (hs : Scheduled s.w c) (hi : Chosen s.w i)
    (hr : s.w.conns.get c = some r) :
    Explained s ⟨promoted s.w c r i fd, s.busy, due, fs, is⟩ := by
  obtain ⟨hnext,hturn,hb⟩ := next_of hI hdue hs hi hr
  have hdesk := desk_phases (s := s) (t := ⟨promoted s.w c r i fd, s.busy, due, fs, is⟩)
    (x := .served) (y := .dialled) hr (promoted_conns ..) (fun q => by cases q <;> rfl) (by simp)
    (fun _ _ => Iff.rfl) (fun _ _ => Iff.rfl) (callerOf_kept hb (by simp))
    (by simp [calleeOf, dialledConn, hS hdue]) (by
      simp only [Call.Stays, hnext.waits]
      simp)
  have hline : lineOf ⟨promoted s.w c r i fd, s.busy, due, fs, is⟩ =
      (lineOf s).erase c := by
    rw [line_due hI.queue hdue]
    refine (line_off fun d hd hm => ?_).trans (by simp)
    have hm : d ∈ (promoted s.w c r i fd).ln.cqWaiting := hm
    rw [promoted_ln] at hm
    exact hI.queue.due hdue d (dismissedBy_closing.mp hd) (List.mem_of_mem_erase hm)
  refine explained_silent ?_ (by simp)
  rw [hdesk, hline]
  simp only [promoted_ln]
  subst hturn
  exact .dial hnext

theorem refuse_explained {i : ℕ} {fd : ℤ} {gs : List Failure} (hI : Inv s) (hdue : s.due = true)
    (hs : Scheduled s.w c) (hi : Chosen s.w i) (hr : s.w.conns.get c = some r) :
    Explained s ⟨closedUpstream (dialled s.w c i fd) c (dialledConn r i fd), s.busy, true, gs,
      is⟩ := by
  obtain ⟨hnext,hturn,-⟩ := next_of hI hdue hs hi hr
  have hdesk := desk_phases (s := s)
    (t := ⟨closedUpstream (dialled s.w c i fd) c (dialledConn r i fd), s.busy, true, gs, is⟩)
    (x := callerOf s.busy c r) (y := .gone) hr (closedUpstream_conns ..)
    (fun q => by cases q <;> rfl) (by simp) (fun _ _ => Iff.rfl) (fun _ _ => Iff.rfl) rfl rfl
    Iff.rfl
  have hline := line_put (s := s)
    (t := ⟨closedUpstream (dialled s.w c i fd) c (dialledConn r i fd), s.busy, true, gs, is⟩) rfl hr
    (closedUpstream_conns ..) rfl (by simp)
  refine explained_silent ?_ (by simp)
  rw [hdesk, hline]
  simp only [closedUpstream_frame, dialled_frame]
  subst hturn
  exact .refused hnext

theorem connect_explained {timeout : ℤ} (hr : w.conns.get c = some r)
    (hup : r.upcStatus = .connect) :
    Explained ⟨w, .idle, false, fs, is⟩ ⟨connected w c r timeout, .idle, false, fs, is⟩ := by
  have hdesk := desk_phases (s := ⟨w, .idle, false, fs, is⟩)
    (t := ⟨connected w c r timeout, .idle, false, fs, is⟩) (x := callerOf .idle c r)
    (y := .reached) hr (connected_conns ..) (fun q => by cases q <;> rfl) (by simp)
    (fun _ _ => Iff.rfl) (fun _ _ => Iff.rfl) rfl (by simp [calleeOf, failingBy]) Iff.rfl
  refine explained_silent ?_ (by simp)
  rw [hdesk]
  exact .reach (desk_calls hr) (by simp [callOf, calleeOf, hup, failingBy])

theorem hangUp_explained {busy : Busy} (hI : Inv ⟨w, busy, false, fs, is⟩)
    (hr : w.conns.get c = some r) (hup : r.isOpen)
    (hbusy : busy = .idle ∨ (∃ p, busy = .losing c p) ∨ busy = .closing c) :
    Explained ⟨w, busy, false, fs, is⟩ ⟨closedUpstream w c r, afterClosing busy, true, fs, is⟩ := by
  have hd : dismissedBy (afterClosing busy) = dismissedBy busy := by cases busy <;> rfl
  have hf : ∀ d, d ≠ c → (failingBy (afterClosing busy) = some d ↔ failingBy busy = some d) := by
    intro d hdc
    rcases hbusy with rfl | ⟨p,rfl⟩ | rfl
    · rfl
    · simp [afterClosing, failingBy, Ne.symm hdc]
    · rfl
  have hdesk := desk_phases (s := ⟨w, busy, false, fs, is⟩)
    (t := ⟨closedUpstream w c r, afterClosing busy, true, fs, is⟩) (x := callerOf busy c r)
    (y := .gone) hr (closedUpstream_conns ..) (fun q => by cases q <;> rfl) (by simp)
    (fun d _ => by rw [hd]) hf (by unfold callerOf; rw [hd]) rfl Iff.rfl
  have hline := line_put (s := ⟨w, busy, false, fs, is⟩)
    (t := ⟨closedUpstream w c r, afterClosing busy, true, fs, is⟩) hd hr (closedUpstream_conns ..)
    rfl (by simp)
  refine explained_silent ?_ (by simp)
  rw [hdesk, hline]
  simp only [closedUpstream_frame]
  exact .hangUp (desk_calls hr) ((wired_iff hI hr).mpr hup)

theorem desk_closed {busy : Busy} (hr : w.conns.get c = some r) (hs : r.status = .close)
    (hbusy : busy = .idle ∨ busy = .over) :
    desk ⟨w, .closing c, false, fs, is⟩ = desk ⟨w, busy, false, fs, is⟩ := by
  have hcalls : ∀ d x, w.conns.get d = some x → callOf ⟨w, .closing c, false, fs, is⟩ d x =
      callOf ⟨w, busy, false, fs, is⟩ d x := by
    intro d x hx
    by_cases hdc : d = c
    · subst hdc
      cases hr.symm.trans hx
      have hleft : ∀ b, callerOf b d r = .left := fun _ => callerOf_left.mpr hs
      have hcallee : calleeOf (.closing d) d r = calleeOf busy d r := by
        rcases hbusy with rfl | rfl <;> rfl
      simp [callOf, heldOf, hleft, hcallee]
    · refine callOf_same ?_ ?_ (fun _ _ => rfl) rfl rfl rfl
      · rcases hbusy with rfl | rfl <;> simp [dismissedBy, Ne.symm hdc]
      · rcases hbusy with rfl | rfl <;> rfl
  refine desk_same rfl rfl hcalls ?_
  rcases hbusy with rfl | rfl <;> simp [lineOf, dismissedBy, hr, hs]

theorem doom_explained (hI : Inv ⟨w, .idle, false, fs, is⟩) (hr : w.conns.get c = some r) :
    Explained ⟨w, .idle, false, fs, is⟩ ⟨w, .closing c, false, fs, is⟩ := by
  by_cases hs : r.status = .close
  · exact explained_quiet (desk_closed hr hs (.inl rfl)) rfl
  · have hdesk := desk_broken (p := .pipe1) (e := .client) (s := ⟨w, .idle, false, fs, is⟩)
      (t := ⟨w, .closing c, false, fs, is⟩) hI hr rfl rfl hs (fun h => by cases h) rfl rfl rfl
      fun _ _ => rfl
    refine explained_silent ?_ rfl
    rw [hdesk]
    exact .dismiss (desk_calls hr) fun h => hs (callerOf_left.mp h)

theorem timeOut_explained {js : List Incident} (hr : w.conns.get c = some r)
    (hs : r.status ≠ .close) :
    Explained ⟨w, .idle, false, fs, is⟩
      ⟨w.putConn c { r with status := .timeout }, .closing c, false, fs, js⟩ := by
  have hcall : callOf ⟨w.putConn c { r with status := .timeout }, .closing c, false, fs, js⟩ c
      { r with status := .timeout } = (callOf ⟨w, .idle, false, fs, is⟩ c r).dismissed :=
    callOf_dismissed rfl rfl rfl rfl (by simp)
  have hput : (w.putConn c { r with status := .timeout }).conns =
      w.conns.set c { r with status := .timeout } := rfl
  have hdesk := desk_put (s := ⟨w, .idle, false, fs, is⟩)
    (t := ⟨w.putConn c { r with status := .timeout }, .closing c, false, fs, js⟩) hput hcall
    fun d x hdc hx => callOf_same (by simp [dismissedBy, Ne.symm hdc]) Iff.rfl
      (fun _ => unsent_put hr hput (fun q => by cases q <;> rfl) rfl d) rfl rfl rfl
  refine explained_silent ?_ rfl
  rw [hdesk]
  have hline : lineOf ⟨w.putConn c { r with status := .timeout }, .closing c, false, fs, js⟩ =
      w.ln.cqWaiting := by
    simp [lineOf, dismissedBy]
  rw [hline]
  exact .expire (desk_calls hr) fun h => hs (callerOf_left.mp h)

theorem leave_explained (hI : Inv ⟨w, .closing c, false, fs, is⟩) (hr : w.conns.get c = some r)
    (hs : r.status ≠ .close) (hup : r.isOpen = false) :
    Explained ⟨w, .closing c, false, fs, is⟩ ⟨closedClient w c r, .closing c, false, fs, is⟩ := by
  have hleaving : callerOf (.closing c) c r = .leaving := callerOf_dismissed rfl hs
  have hdesk := desk_phases (s := ⟨w, .closing c, false, fs, is⟩)
    (t := ⟨closedClient w c r, .closing c, false, fs, is⟩) (x := .left)
    (y := calleeOf (.closing c) c r) hr (closedClient_conns ..) (fun q => by cases q <;> rfl)
    (by simp) (fun _ _ => Iff.rfl) (fun _ _ => Iff.rfl) (callerOf_left.mpr rfl) rfl
    (by simp [Call.Stays, callOf, hleaving])
  have hline : lineOf ⟨closedClient w c r, .closing c, false, fs, is⟩ =
      lineOf ⟨w, .closing c, false, fs, is⟩ := by
    simp [lineOf, dismissedBy, hr]
  refine explained_silent ?_ (by simp)
  rw [hdesk, hline]
  simp only [closedClient_ln]
  refine .leave (desk_calls hr) hleaving fun hw => ?_
  rw [wired_iff hI hr, hup] at hw
  cases hw

theorem forget_explained (hI : Inv ⟨w, .closing c, false, fs, is⟩) (hr : w.conns.get c = some r)
    (hs : r.status = .close) (hup : r.isOpen = false) :
    Explained ⟨w, .closing c, false, fs, is⟩ ⟨freed w c, .over, false, fs, is⟩ := by
  have hcalls : (desk ⟨freed w c, .over, false, fs, is⟩).calls =
      ((desk ⟨w, .closing c, false, fs, is⟩).drop c).calls := by
    funext d
    simp only [desk, Desk.drop, freed_conns, Store.free_get]
    by_cases hdc : d = c
    · rw [if_pos hdc, if_pos hdc]
      rfl
    · rw [if_neg hdc, if_neg hdc]
      cases hx : w.conns.get d with
      | none => rfl
      | some x =>
        refine congrArg some (callOf_same ?_ Iff.rfl (fun _ q => ?_) rfl rfl rfl)
        · simp [dismissedBy, Ne.symm hdc]
        · exact unsent_same (by simp [World.pipes, hdc]) fun _ _ => rfl
  have hline : lineOf ⟨w, .closing c, false, fs, is⟩ = w.ln.cqWaiting := by
    simp [lineOf, dismissedBy, hr, hs]
  have hdesk : desk ⟨freed w c, .over, false, fs, is⟩ =
      (desk ⟨w, .closing c, false, fs, is⟩).drop c := by
    simp only [desk, Desk.drop, hline] at hcalls ⊢
    rw [hcalls]
    rfl
  refine explained_silent ?_ rfl
  rw [hdesk]
  refine .forget (desk_calls hr) (callerOf_left.mpr hs) fun hw => ?_
  rw [wired_iff hI hr, hup] at hw
  cases hw

theorem enter_explained {fd : ℤ} {js : List Incident}
    (hmax : w.ln.cCount < w.ln.srvcf.accessMax) :
    Explained ⟨w, .idle, false, fs, is⟩
      ⟨admitted (accepted w fd) fd, .idle, false, fs, js⟩ := by
  have hcalls : (desk ⟨admitted (accepted w fd) fd, .idle, false, fs, js⟩).calls =
      ((desk ⟨w, .idle, false, fs, is⟩).put w.conns.next .fresh).calls := by
    funext d
    simp only [desk, Desk.put, admitted_conns, accepted_frame, Store.push_get]
    by_cases hd : d = w.conns.next
    · rw [if_pos hd, if_pos hd]
      simp [callOf, callerOf, calleeOf, heldOf, dismissedBy, Access.newConn, Call.fresh, unsent,
        World.pipes, hd, XtpConn.pipe]
    · rw [if_neg hd, if_neg hd]
      cases hx : w.conns.get d with
      | none => rfl
      | some x =>
        refine congrArg some (callOf_same Iff.rfl Iff.rfl ?_ rfl rfl rfl)
        intro _ q
        exact unsent_same (by simp [World.pipes, hd]) fun _ _ => by simp
  have hused : {c | c < (admitted (accepted w fd) fd).conns.next} =
      insert w.conns.next {c | c < w.conns.next} := by
    ext c
    simp only [admitted_conns, accepted_frame, Store.push_next, Set.mem_ofPred_eq,
      Set.mem_insert_iff]
    omega
  have hdesk : desk ⟨admitted (accepted w fd) fd, .idle, false, fs, js⟩ =
      { (desk ⟨w, .idle, false, fs, is⟩).put w.conns.next .fresh with
        used := insert w.conns.next {c | c < w.conns.next}, present := w.ln.cCount+1 } := by
    simp only [desk, Desk.put, hused, lineOf, dismissedBy] at hcalls ⊢
    rw [hcalls]
    simp
  refine explained_silent ?_ (by simp)
  rw [hdesk]
  exact .enter (by simp [desk]) hmax

end control

theorem act_explained (h : Act o s t) (hI : Inv s) (hS : Settled s) : Explained s t := by
  cases h with
  | answers | mallocs | countMax | beginFill | answered | restClient | restUpstream | pass
  | stopTimer | stopUpcTimer =>
    exact explained_quiet (desk_same rfl rfl (fun _ _ _ =>
      callOf_same Iff.rfl Iff.rfl (fun _ _ => rfl) rfl rfl rfl) rfl) rfl
  | requested =>
    refine explained_quiet (desk_same ?_ ?_ (fun _ _ _ =>
      callOf_same Iff.rfl Iff.rfl (fun _ _ => ?_) rfl rfl rfl) ?_) ?_
    all_goals split <;> rfl
  | addBlock =>
    refine explained_quiet (desk_same rfl rfl (fun c _ _ =>
      callOf_same Iff.rfl Iff.rfl (fun _ p => ?_) rfl rfl rfl) rfl) rfl
    refine unsent_same rfl fun b hb => window_congr ?_
    obtain ⟨rb,hrb,-⟩ := (hI.buffers.shape c p).each b hb
    have hlt := hI.buffers.wellFormed.lt hrb
    simp [pushBlock, Nat.ne_of_lt hlt]
  | link hr hb =>
    exact explained_quiet (desk_quiet hr (linked_conns ..) rfl rfl (by simp) (by simp) (by simp)
      (by simp) fun d _ _ _ q => unsent_linked hI.buffers hr hb d q) (by simp)
  | fill chunks hr hb hrb => exact fill_explained hI hr hb hrb _
  | lose chunks hr hb hrb => exact lose_explained hI hr hb hrb
  | drain ks hr hp hb hrb hks => exact drain_explained hI hr hp hb hrb hks
  | leak ks hr hp hb hrb hks => exact leak_explained hI hr hp hb hrb hks
  | unlink hr hb hrb hbusy => exact unlink_explained hI hr hb hrb hbusy
  | enqueue hr hs => exact enqueue_explained hr hs
  | noSocket leaked hs hi hr => exact misdial_explained hI rfl hs hi hr
  | promote hs hi hr => exact promote_explained hI hS rfl hs hi hr
  | refuse hs hi hr => exact refuse_explained hI rfl hs hi hr
  | connect timeout hr hup => exact connect_explained hr hup
  | closeUpstream hr hup hbusy => exact hangUp_explained hI hr hup hbusy
  | doom hr => exact doom_explained hI hr
  | timeOut hr hs => exact timeOut_explained hr hs
  | closeClient hr hs hup => exact leave_explained hI hr hs hup
  | settle hr hs => exact explained_quiet (desk_closed hr hs (.inr rfl)).symm rfl
  | free hr hs hup => exact forget_explained hI hr hs hup
  | welcome _ hmax => exact enter_explained hmax
  | turnAway =>
    refine explained_quiet (desk_same (by simp) (by simp) (fun c _ _ =>
      callOf_same Iff.rfl Iff.rfl (fun _ p => ?_) rfl rfl rfl) (by simp [lineOf, dismissedBy]))
      (by simp)
    exact unsent_same (pipes_conns (by simp) c p) fun _ _ => by simp

theorem act_limits (h : Act o s t) : limits t = limits s := by
  cases h with
  | requested => split <;> rfl
  | _ => simp [limits, chosen]

structure Along (s t : Stage) : Prop where
  settled : Settled t
  limits : limits t = limits s
  explained : Explained s t

theorem act_along (hI : Inv t) (hA : Along s t) {u : Stage} (h : Act o t u) : Along s u := by
  obtain ⟨es,hrun,hio⟩ := hA.explained
  obtain ⟨es',hrun',hio'⟩ := act_explained h hI hA.settled
  rw [hA.limits] at hrun'
  refine ⟨act_settled h hA.settled, (act_limits h).trans hA.limits, es ++ es', hrun.trans hrun', ?_⟩
  rw [hio', hio, List.append_assoc]

theorem path_explained (h : Acts o s t) (hI : Inv s) (hS : Settled s) : Along s t :=
  path_along (Along s) (fun _ _ hI hA ha => act_along hI hA ha) hI
    ⟨hS, rfl, explained_quiet rfl rfl⟩ h

theorem desk_rest (h : s.busy = .idle ∨ s.busy = .over) : desk (rest s.w) = desk s := by
  have hd : dismissedBy s.busy = none := by rcases h with h | h <;> rw [h] <;> rfl
  have hf : failingBy s.busy = none := by rcases h with h | h <;> rw [h] <;> rfl
  refine desk_same rfl rfl (fun _ _ _ => callOf_same ?_ ?_ (fun _ _ => rfl) rfl rfl rfl) ?_
  · rw [hd]
    rfl
  · rw [hf]
    rfl
  · unfold lineOf
    rw [hd]
    rfl

theorem turn_explained {w' : World} {t : Turn} (h : Reachable proxy w) (ha : Active w t.event)
    (hrun : run w t = .ok () w') :
    limits (rest w') = limits (rest w) ∧ Explained (rest w) (rest w') := by
  obtain ⟨u,hpath,rfl,hu⟩ := returned_path (reaches_inv h) ha hrun
  obtain ⟨-,hlimits,es,hes,hio⟩ := path_explained hpath (supply_inv t (reaches_inv h))
    (fun hdue => Bool.noConfusion hdue)
  refine ⟨hlimits, es, ?_, hio⟩
  rw [desk_rest hu.busy]
  exact hes

theorem history_explained (h : Reachable proxy w) :
    Run (limits (rest w)) (Desk.empty 0) (w.io.map event) (desk (rest w)) := by
  induction h with
  | start h =>
    obtain ⟨srvcf,mallocs,heap,hindex,-,-,rfl⟩ := h
    have hdesk : desk (rest (listener srvcf heap)) = Desk.empty 0 := by
      simp [desk, Desk.empty, lineOf, dismissedBy, rest, listener, Store.empty, hindex]
    rw [hdesk]
    exact .refl
  | @step w w' t hr _ hs ih =>
    obtain ⟨hlimits,es,hes,hio⟩ := turn_explained hr hs.1 hs.2.1
    have hio : w'.io.map event = w.io.map event ++ es := hio
    rw [hlimits, hio]
    exact ih.trans hes

/-- What the proxy has received and sent, an exchange that has gone through
the same has got and given. This holds after every callback, and of what a
callback has done that does not return. -/
theorem refines_exchange (h : Reachable proxy w) :
    Run (limits (rest w)) (Desk.empty 0) (w.io.map event) (desk (rest w)) ∧
    ∀ t, Active w t.event →
      (∀ w', run w t = .ok () w' → ∃ es, w'.io.map event = w.io.map event ++ es ∧
        Run (limits (rest w)) (desk (rest w)) es (desk (rest w'))) ∧
      (∀ e w', run w t = .error e w' → ∃ es d, w'.io.map event = w.io.map event ++ es ∧
        Run (limits (rest w)) (desk (rest w)) es d) := by
  refine ⟨history_explained h, fun t ha => ⟨fun w' hrun => ?_, fun e w' hrun => ?_⟩⟩
  · obtain ⟨-,es,hes,hio⟩ := turn_explained h ha hrun
    exact ⟨es, hio, hes⟩
  · obtain ⟨u,hpath,hcut⟩ := stopped_path (reaches_inv h) ha hrun
    obtain ⟨-,-,es,hes,hio⟩ := path_explained hpath (supply_inv t (reaches_inv h))
      (fun hdue => Bool.noConfusion hdue)
    exact ⟨es, desk u, by rw [hcut.io]; exact hio, hes⟩

theorem refines_exchange_oneWaits : ∃ d : Desk ConnId UInt8,
    Run ⟨10, 1, 1⟩ (Desk.empty 0) [.got 0 .caller [1], .got 1 .caller [2]] d ∧ d.line = [1] ∧
    d.busy = 1 := by
  have hplay : (play (fun _ _ => true) (listener (singlePeer 1) (initialPool true))
      oneWaits).any (fun w => decide (limits (rest w) = ⟨10, 1, 1⟩ ∧
        w.io = [⟨⟨0, .client⟩, .recv, [1]⟩, ⟨⟨1, .client⟩, .recv, [2]⟩] ∧
        w.ln.cqWaiting = [1] ∧ w.ln.workingNum = 1)) = true := by
    decide +kernel
  obtain ⟨w,hr,hw⟩ := play_reaches _ (.start (singlePeer_start 1)) hplay
  obtain ⟨hlimits,hio,hline,hbusy⟩ := of_decide_eq_true hw
  have hrun := (refines_exchange hr.reachable).1
  rw [hlimits, hio] at hrun
  exact ⟨desk (rest w), hrun, hline, hbusy⟩

end TcpFunnel.ExchangeRefinement
