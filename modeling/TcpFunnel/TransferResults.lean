import TcpFunnel.TransferRuns
import TcpFunnel.Library.Pump

/-!
# What the transfer loops return

Both loops move a number of bytes in several calls. They return the number of
bytes moved when all of them are or the last call reported `EAGAIN`, and tell
the end of the stream from an error.
-/

set_option autoImplicit false

namespace TcpFunnel.TransferResults
open TcpFunnel.BufferPool TcpFunnel.Connection TcpFunnel.SystemCalls TcpFunnel.TransferLoops
open TcpFunnel.Actions TcpFunnel.TransferRuns TcpFunnel.Supply TcpFunnel.Pump TcpFunnel.CInt

def recvReply : RecvAnswer → Reply
  | .got bytes => .moved bytes.length
  | .eintr => .interrupted
  | .eagain => .again
  | .error => .failed

def sendReply : SendAnswer → Reply
  | .sent k => .moved k
  | .eintr => .interrupted
  | .eagain => .again
  | .error => .failed

def returned (count : ℕ) : Outcome → ℤ
  | .count => count
  | .closed => -2
  | .failed => -1

def history (kind : IoKind) (chunks : List (List UInt8)) : Option Sock → List Transfer
  | some s => chunks.map fun bytes => ⟨s, kind, bytes⟩
  | none => []

def recvChunks : List RecvAnswer → List (List UInt8)
  | [] => []
  | .got bytes::rest => bytes::recvChunks rest
  | .eintr::rest | .eagain::rest | .error::rest => recvChunks rest

def sendChunks (data : ℕ → UInt8) : ℕ → List SendAnswer → List (List UInt8)
  | _, [] => []
  | off, .sent k::rest => Memory.read data off k::sendChunks data (off+k) rest
  | off, .eintr::rest | off, .eagain::rest | off, .error::rest => sendChunks data off rest

def afterRecv (w : World) (fd : ℤ) (b : BufId) (rb : XtpBuf) (str : ℕ) (used : List RecvAnswer) :
    World :=
  { w with
    heap := setBlock w.heap b
      { rb with data := Memory.write rb.data str (recvChunks used).flatten }
    io := w.io ++ history .recv (recvChunks used) (w.fds fd) }

def afterSend (w : World) (fd : ℤ) (rb : XtpBuf) (str : ℕ) (used : List SendAnswer) : World :=
  { w with io := w.io ++ history .send (sendChunks rb.data str used) (w.fds fd) }

variable {w : World} {fd : ℤ} {b : BufId} {rb : XtpBuf} {str off n nLen : ℕ} {s : Sock}
variable {chunks chunks' : List (List UInt8)} {kind : IoKind} {bytes : List UInt8}

theorem history_nil {k : Option Sock} : history kind [] k = [] := by
  cases k <;> rfl

theorem history_append {k : Option Sock} :
    history kind (chunks ++ chunks') k = history kind chunks k ++ history kind chunks' k := by
  cases k with
  | none => rfl
  | some s => exact List.map_append

theorem history_sock {k : Option Sock} {t : Transfer} (h : t ∈ history kind chunks k) :
    k = some t.sock ∧ t.kind = kind := by
  cases k with
  | none => cases h
  | some s =>
    obtain ⟨bytes,-,rfl⟩ := List.mem_map.mp h
    exact ⟨rfl, rfl⟩

theorem history_bytes {k : Option Sock} (hopen : chunks ≠ [] → k ≠ none) :
    (history kind chunks k).flatMap (·.bytes) = chunks.flatten := by
  cases k with
  | none =>
    have hnil : chunks = [] := by
      by_contra hne
      exact hopen hne rfl
    rw [hnil]
    rfl
  | some s => simp [history, List.flatMap_map, List.flatMap_id']

theorem moved_count (hlen : nLen < 2147483648) (hn : n ≤ nLen) :
    cInt ((nLen : ℤ)-n) = (nLen-n : ℕ) := by
  rw [cInt_small (by omega) (by omega)]
  omega

theorem moved_all (hlen : nLen < 2147483648) : cInt ((nLen : ℤ)-(0 : ℕ)) = nLen :=
  moved_count hlen (Nat.zero_le _)

section receiving

variable {used rest : List RecvAnswer}

theorem recvChunks_length :
    (recvChunks used).flatten.length = total (used.map recvReply) := by
  induction used with
  | nil => rfl
  | cons a used ih => cases a <;> simp [recvChunks, recvReply, Reply.amount, ih]

theorem recvChunks_got (h : recvChunks used ≠ []) : ∃ bytes, .got bytes ∈ used := by
  induction used with
  | nil => exact absurd rfl h
  | cons a used ih =>
    cases a with
    | got bytes => exact ⟨bytes, List.mem_cons_self ..⟩
    | eintr | eagain | error =>
      obtain ⟨bytes,hmem⟩ := ih h
      exact ⟨bytes, List.mem_cons_of_mem _ hmem⟩

theorem afterRecv_nil (hrb : w.heap.bufs.get b = some rb) : afterRecv w fd b rb str [] = w := by
  simp [afterRecv, recvChunks, history_nil, setBlock, Store.set_self hrb]

theorem afterRecv_got : afterRecv (afterRecv w fd b rb str [.got bytes]) fd b
    { rb with data := Memory.write rb.data str bytes } (str+bytes.length) used =
    afterRecv w fd b rb str (.got bytes::used) := by
  have hcons : history .recv (bytes::recvChunks used) (w.fds fd) =
      history .recv [bytes] (w.fds fd) ++ history .recv (recvChunks used) (w.fds fd) :=
    @history_append [bytes] _ _ _
  simp [afterRecv, recvChunks, hcons, setBlock, Memory.write_append]

def withRecvs (w : World) (l : List RecvAnswer) : World := w.setSys { w.sys with recvs := l }

theorem recv_got (hrb : w.heap.bufs.get b = some rb) (hs : w.fds fd = some s)
    (hn : bytes.length ≤ n) : (recv fd b off n).run (withRecvs w (.got bytes::rest)) =
      .ok (.got bytes) (withRecvs (afterRecv w fd b rb off [.got bytes]) rest) := by
  have hnext : nextRecv.run (withRecvs w (.got bytes::rest)) =
      .ok (.got bytes) (withRecvs w rest) := answer_some rfl
  have hhistory : history .recv [bytes] (w.fds fd) = [⟨s, .recv, bytes⟩] := by simp [history, hs]
  have hbuf : (buf b).run (withRecvs w rest).heap = .ok rb (withRecvs w rest).heap := buf_run hrb
  have hfd : (withRecvs w rest).fds fd = some s := hs
  unfold recv
  rw [EStateM.run_bind, hnext]
  simp only [EStateM.run_bind, EStateM.run_get, hfd, if_neg (Nat.not_lt.mpr hn), onHeap_run, hbuf]
  simp only [afterRecv, recvChunks, hhistory, List.flatten_cons, List.flatten_nil, List.append_nil]
  rfl

theorem recv_other {a : RecvAnswer} (ha : ∀ bytes, a ≠ .got bytes) :
    (recv fd b off n).run (withRecvs w (a::rest)) = .ok a (withRecvs w rest) := by
  have hnext : nextRecv.run (withRecvs w (a::rest)) = .ok a (withRecvs w rest) := answer_some rfl
  unfold recv
  rw [EStateM.run_bind, hnext]
  cases a with
  | got bytes => exact absurd rfl (ha bytes)
  | eintr | eagain | error => rfl

theorem recvLoop_pumped {out : Outcome} {turns : ℕ} (hlen : nLen < 2147483648)
    (hP : Pumped n (used.map recvReply) out) (hn : n ≤ nLen)
    (hopen : ∀ bytes, .got bytes ∈ used → w.fds fd ≠ none)
    (hrb : w.heap.bufs.get b = some rb) (hturns : used.length < turns) :
    (xRecvnLoop fd b nLen turns str n).run (withRecvs w (used ++ rest)) =
      .ok (returned (nLen-n+total (used.map recvReply)) out)
        (withRecvs (afterRecv w fd b rb str used) rest) := by
  obtain ⟨turns,rfl⟩ := Nat.exists_eq_add_of_le' (show 1 ≤ turns by omega)
  induction used generalizing n w rb str turns with
  | nil =>
    rw [List.map_nil] at hP
    cases hP
    unfold xRecvnLoop
    rw [if_pos (by omega), moved_all hlen, afterRecv_nil hrb]
    rfl
  | cons a used ih =>
    rw [List.length_cons] at hturns
    obtain ⟨turns,rfl⟩ := Nat.exists_eq_add_of_le' (show 1 ≤ turns by omega)
    have hopen' : ∀ bytes, .got bytes ∈ used → w.fds fd ≠ none := fun bytes hmem =>
      hopen bytes (List.mem_cons_of_mem _ hmem)
    rw [List.map_cons] at hP ⊢
    unfold xRecvnLoop
    cases a with
    | eintr =>
      obtain ⟨hpos,hlater⟩ := hP.retry_cases
      rw [if_neg (by omega), List.cons_append, bind_ok (recv_other (by simp)), total_cons]
      have hsame : afterRecv w fd b rb str (.eintr::used) = afterRecv w fd b rb str used := rfl
      have hih := @ih w rb str n hlater hn hopen' hrb turns (by omega)
      rw [hsame]
      simpa [recvReply, Reply.amount] using hih
    | eagain =>
      obtain ⟨hpos,hnil,rfl⟩ := hP.again_cases
      cases List.map_eq_nil_iff.mp hnil
      rw [if_neg (by omega), List.cons_append, bind_ok (recv_other (by simp)),
        moved_count hlen hn]
      have hsame : afterRecv w fd b rb str [.eagain] = w := afterRecv_nil hrb
      rw [hsame]
      rfl
    | error =>
      obtain ⟨hpos,hnil,rfl⟩ := hP.failed_cases
      cases List.map_eq_nil_iff.mp hnil
      rw [if_neg (by omega), List.cons_append, bind_ok (recv_other (by simp))]
      have hsame : afterRecv w fd b rb str [.error] = w := afterRecv_nil hrb
      rw [hsame]
      rfl
    | got bytes =>
      obtain ⟨s,hs⟩ := Option.ne_none_iff_exists'.mp (hopen bytes (List.mem_cons_self ..))
      rcases hP.moved_cases with ⟨hzero,hpos,hnil,rfl⟩ | ⟨hpos,m,rfl,hlater⟩
      · cases List.eq_nil_of_length_eq_zero hzero
        cases List.map_eq_nil_iff.mp hnil
        rw [if_neg (by omega), List.cons_append, bind_ok (recv_got hrb hs (Nat.zero_le _))]
        rfl
      · have hfits : bytes.length ≤ (((bytes.length+m : ℕ) : ℤ)).toNat := by omega
        rw [if_neg (by omega), List.cons_append, bind_ok (recv_got hrb hs hfits)]
        obtain ⟨x,xs,rfl⟩ := List.exists_cons_of_length_pos hpos
        have hget : (afterRecv w fd b rb str [.got (x::xs)]).heap.bufs.get b =
            some { rb with data := Memory.write rb.data str (x::xs) } := by
          simp [afterRecv, recvChunks, setBlock]
        have hih := @ih (afterRecv w fd b rb str [.got (x::xs)]) _ (str+(x::xs).length) m hlater
          (by omega) hopen' hget turns (by omega)
        have hleft : (((x::xs).length+m : ℕ) : ℤ)-((x::xs).length : ℤ) = m := by omega
        have htotal : nLen-m+total (used.map recvReply) = nLen-((x::xs).length+m)+
            total (recvReply (.got (x::xs))::used.map recvReply) := by
          rw [total_cons, recvReply, Reply.amount]
          omega
        rw [afterRecv_got, htotal] at hih
        show (xRecvnLoop fd b nLen (turns+1) (str+(x::xs).length)
          ((((x::xs).length+m : ℕ) : ℤ)-((x::xs).length : ℤ))).run _ = _
        rw [hleft]
        exact hih

end receiving

section sending

variable {used rest : List SendAnswer} {k : ℕ}

theorem sendChunks_bytes (data : ℕ → UInt8) : (sendChunks data off used).flatten =
    Memory.read data off (total (used.map sendReply)) := by
  induction used generalizing off with
  | nil => rfl
  | cons a used ih =>
    cases a with
    | sent k => simp [sendChunks, sendReply, Reply.amount, ih, Memory.read_add]
    | eintr | eagain | error => simp [sendChunks, sendReply, Reply.amount, ih]

theorem sendChunks_sent (data : ℕ → UInt8) (h : sendChunks data off used ≠ []) :
    ∃ k, .sent k ∈ used := by
  induction used generalizing off with
  | nil => exact absurd rfl h
  | cons a used ih =>
    cases a with
    | sent k => exact ⟨k, List.mem_cons_self ..⟩
    | eintr | eagain | error =>
      obtain ⟨k,hmem⟩ := ih h
      exact ⟨k, List.mem_cons_of_mem _ hmem⟩

theorem afterSend_nil (rb : XtpBuf) (str : ℕ) : afterSend w fd rb str [] = w := by
  simp [afterSend, sendChunks, history_nil]

theorem afterSend_sent : afterSend (afterSend w fd rb str [.sent k]) fd rb (str+k) used =
    afterSend w fd rb str (.sent k::used) := by
  have hcons : ∀ bytes cs, history .send (bytes::cs) (w.fds fd) =
      history .send [bytes] (w.fds fd) ++ history .send cs (w.fds fd) := fun bytes cs =>
    @history_append [bytes] cs _ _
  simp [afterSend, sendChunks, hcons _ (sendChunks rb.data (str+k) used)]

def withSends (w : World) (l : List SendAnswer) : World := w.setSys { w.sys with sends := l }

theorem send_sent (hrb : w.heap.bufs.get b = some rb) (hs : w.fds fd = some s) (hn : k ≤ n) :
    (send fd b off n).run (withSends w (.sent k::rest)) =
      .ok (.sent k) (withSends (afterSend w fd rb off [.sent k]) rest) := by
  have hnext : nextSend.run (withSends w (.sent k::rest)) =
      .ok (.sent k) (withSends w rest) := answer_some rfl
  have hhistory : history .send [Memory.read rb.data off k] (w.fds fd) =
      [⟨s, .send, Memory.read rb.data off k⟩] := by simp [history, hs]
  have hbuf : (buf b).run (withSends w rest).heap = .ok rb (withSends w rest).heap := buf_run hrb
  have hfd : (withSends w rest).fds fd = some s := hs
  unfold send
  rw [EStateM.run_bind, hnext]
  simp only [EStateM.run_bind, EStateM.run_get, hfd, if_neg (Nat.not_lt.mpr hn), onHeap_run, hbuf]
  simp only [afterSend, sendChunks, hhistory]
  rfl

theorem send_other {a : SendAnswer} (ha : ∀ k, a ≠ .sent k) :
    (send fd b off n).run (withSends w (a::rest)) = .ok a (withSends w rest) := by
  have hnext : nextSend.run (withSends w (a::rest)) = .ok a (withSends w rest) := answer_some rfl
  unfold send
  rw [EStateM.run_bind, hnext]
  cases a with
  | sent k => exact absurd rfl (ha k)
  | eintr | eagain | error => rfl

theorem sendLoop_pumped {out : Outcome} {turns : ℕ} (hlen : nLen < 2147483648)
    (hP : Pumped n (used.map sendReply) out) (hn : n ≤ nLen)
    (hopen : ∀ k, .sent k ∈ used → w.fds fd ≠ none)
    (hrb : w.heap.bufs.get b = some rb) (hturns : used.length < turns) :
    (xSendnLoop fd b nLen turns str n).run (withSends w (used ++ rest)) =
      .ok (returned (nLen-n+total (used.map sendReply)) out)
        (withSends (afterSend w fd rb str used) rest) := by
  obtain ⟨turns,rfl⟩ := Nat.exists_eq_add_of_le' (show 1 ≤ turns by omega)
  induction used generalizing n w str turns with
  | nil =>
    rw [List.map_nil] at hP
    cases hP
    unfold xSendnLoop
    rw [if_pos (by omega), moved_all hlen, afterSend_nil rb str]
    rfl
  | cons a used ih =>
    rw [List.length_cons] at hturns
    obtain ⟨turns,rfl⟩ := Nat.exists_eq_add_of_le' (show 1 ≤ turns by omega)
    have hopen' : ∀ k, .sent k ∈ used → w.fds fd ≠ none := fun k hmem =>
      hopen k (List.mem_cons_of_mem _ hmem)
    rw [List.map_cons] at hP ⊢
    unfold xSendnLoop
    cases a with
    | eintr =>
      obtain ⟨hpos,hlater⟩ := hP.retry_cases
      rw [if_neg (by omega), List.cons_append, bind_ok (send_other (by simp)), total_cons]
      have hsame : afterSend w fd rb str (.eintr::used) = afterSend w fd rb str used := rfl
      have hih := @ih w str n hlater hn hopen' hrb turns (by omega)
      rw [hsame]
      simpa [sendReply, Reply.amount] using hih
    | eagain =>
      obtain ⟨hpos,hnil,rfl⟩ := hP.again_cases
      cases List.map_eq_nil_iff.mp hnil
      rw [if_neg (by omega), List.cons_append, bind_ok (send_other (by simp)),
        moved_count hlen hn]
      have hsame : afterSend w fd rb str [.eagain] = w := afterSend_nil rb str
      rw [hsame]
      rfl
    | error =>
      obtain ⟨hpos,hnil,rfl⟩ := hP.failed_cases
      cases List.map_eq_nil_iff.mp hnil
      rw [if_neg (by omega), List.cons_append, bind_ok (send_other (by simp))]
      have hsame : afterSend w fd rb str [.error] = w := afterSend_nil rb str
      rw [hsame]
      rfl
    | sent k =>
      obtain ⟨s,hs⟩ := Option.ne_none_iff_exists'.mp (hopen k (List.mem_cons_self ..))
      rcases hP.moved_cases with ⟨rfl,hpos,hnil,rfl⟩ | ⟨hpos,m,rfl,hlater⟩
      · cases List.map_eq_nil_iff.mp hnil
        rw [if_neg (by omega), List.cons_append, bind_ok (send_sent hrb hs (Nat.zero_le _))]
        rfl
      · have hfits : k ≤ (((k+m : ℕ) : ℤ)).toNat := by omega
        rw [if_neg (by omega), List.cons_append, bind_ok (send_sent hrb hs hfits)]
        obtain ⟨j,rfl⟩ := Nat.exists_eq_add_of_le' hpos
        have hih := @ih (afterSend w fd rb str [.sent (j+1)]) (str+(j+1)) m hlater
          (by omega) hopen' hrb turns (by omega)
        have hleft : ((j+1+m : ℕ) : ℤ)-((j+1 : ℕ) : ℤ) = m := by omega
        have htotal : nLen-m+total (used.map sendReply) = nLen-(j+1+m)+
            total (sendReply (.sent (j+1))::used.map sendReply) := by
          rw [total_cons, sendReply, Reply.amount]
          omega
        rw [afterSend_sent, htotal] at hih
        show (xSendnLoop fd b nLen (turns+1) (str+(j+1))
          (((j+1+m : ℕ) : ℤ)-((j+1 : ℕ) : ℤ))).run _ = _
        rw [hleft]
        exact hih

end sending

/-- What a call that took these replies may return. -/
structure Returned (nLen : ℕ) (replies : List Reply) (r : ℤ) : Prop where
  kinds : r = -2 ∨ r = -1 ∨ 0 ≤ r
  count : 0 ≤ r → r ≤ nLen ∧ r = total replies ∧
    (r < nLen → replies.getLast? = some .again)
  closed : r = -2 ↔ .moved 0 ∈ replies
  failed : r = -1 ↔ .failed ∈ replies

/-- The `n` bytes from `str` on, in order and each once, are what the socket of
`fd` has transferred, and nothing else has changed. -/
structure Carried (kind : IoKind) (w w' : World) (fd : ℤ) (b : BufId) (rb : XtpBuf) (str n : ℕ) :
    Prop where
  world : w' = { w with heap := w'.heap, io := w'.io }
  block : ∃ data, w'.heap = setBlock w.heap b { rb with data := data } ∧
    (∀ i, i < str ∨ str+n ≤ i → data i = rb.data i) ∧ (kind = .send → data = rb.data) ∧
    ∃ new, w'.io = w.io ++ new ∧ (∀ t ∈ new, w.fds fd = some t.sock ∧ t.kind = kind) ∧
      new.flatMap (·.bytes) = Memory.read data str n

theorem returned_exact {replies : List Reply} {out : Outcome} (hP : Pumped nLen replies out) :
    Returned nLen replies (returned (total replies) out) := by
  have hle := hP.total_le
  have hclosed := hP.closed_iff
  have hfailed := hP.failed_iff
  cases out with
  | count =>
    have hnot : ¬ ((total replies : ℤ) = -2) ∧ ¬ ((total replies : ℤ) = -1) := by omega
    constructor
    · exact .inr (.inr (Int.natCast_nonneg _))
    · exact fun _ => ⟨Int.ofNat_le.mpr hle, rfl, fun hlt => hP.short rfl (Int.ofNat_lt.mp hlt)⟩
    · simpa [returned, hnot] using hclosed
    · simpa [returned, hnot] using hfailed
  | closed =>
    constructor
    · exact .inl rfl
    · exact fun h => absurd h (by simp [returned])
    · simpa [returned] using hclosed
    · simpa [returned] using hfailed
  | failed =>
    constructor
    · exact .inr (.inl rfl)
    · exact fun h => absurd h (by simp [returned])
    · simpa [returned] using hclosed
    · simpa [returned] using hfailed

theorem returned_count {replies : List Reply} {out : Outcome}
    (h : 0 ≤ returned (total replies) out) :
    (returned (total replies) out).toNat = total replies := by
  cases out with
  | count => rfl
  | closed | failed => exact absurd h (by simp [returned])

theorem afterRecv_carried {used : List RecvAnswer}
    (hopen : ∀ bytes, .got bytes ∈ used → w.fds fd ≠ none) :
    Carried .recv w (afterRecv w fd b rb str used) fd b rb str (total (used.map recvReply)) where
  world := rfl
  block := by
    have hsocket : recvChunks used ≠ [] → w.fds fd ≠ none := by
      intro hne
      obtain ⟨bytes,hmem⟩ := recvChunks_got hne
      exact hopen bytes hmem
    refine ⟨Memory.write rb.data str (recvChunks used).flatten, rfl, fun i hi => ?_, by simp,
      history .recv (recvChunks used) (w.fds fd), rfl, fun t ht => history_sock ht, ?_⟩
    · rw [← recvChunks_length] at hi
      rcases hi with hi | hi
      · exact Memory.write_before _ _ _ _ hi
      · exact Memory.write_after _ _ _ _ hi
    · rw [history_bytes hsocket, ← recvChunks_length, Memory.read_write_same]

theorem afterSend_carried {used : List SendAnswer} (hrb : w.heap.bufs.get b = some rb)
    (hopen : ∀ k, .sent k ∈ used → w.fds fd ≠ none) :
    Carried .send w (afterSend w fd rb str used) fd b rb str (total (used.map sendReply)) where
  world := rfl
  block := by
    have hsocket : sendChunks rb.data str used ≠ [] → w.fds fd ≠ none := by
      intro hne
      obtain ⟨k,hmem⟩ := sendChunks_sent rb.data hne
      exact hopen k hmem
    refine ⟨rb.data, by simp [afterSend, setBlock, Store.set_self hrb], fun _ _ => rfl,
      fun _ => rfl, history .send (sendChunks rb.data str used) (w.fds fd), rfl,
      fun t ht => history_sock ht, ?_⟩
    rw [history_bytes hsocket, sendChunks_bytes]

theorem xRecvn_run_pumped {used rest : List RecvAnswer} {out : Outcome} (hlen : nLen < 2147483648)
    (hrb : w.heap.bufs.get b = some rb) (hP : Pumped nLen (used.map recvReply) out)
    (hopen : ∀ bytes, .got bytes ∈ used → w.fds fd ≠ none) :
    (xRecvn fd b str nLen).run (withRecvs w (used ++ rest)) =
      .ok (returned (total (used.map recvReply)) out)
        (withRecvs (afterRecv w fd b rb str used) rest) := by
  have hturns : used.length < (used ++ rest).length+1 := by
    rw [List.length_append]
    omega
  have hloop : (xRecvnLoop fd b nLen ((used ++ rest).length+1) str nLen).run
      (withRecvs w (used ++ rest)) = _ :=
    recvLoop_pumped hlen hP (Nat.le_refl _) hopen hrb hturns
  rw [Nat.sub_self, Nat.zero_add] at hloop
  unfold xRecvn
  rw [cInt_small (by omega) (by omega), bind_ok (get_run _)]
  exact hloop

theorem xSendn_run_pumped {used rest : List SendAnswer} {out : Outcome} (hlen : nLen < 2147483648)
    (hrb : w.heap.bufs.get b = some rb) (hP : Pumped nLen (used.map sendReply) out)
    (hopen : ∀ k, .sent k ∈ used → w.fds fd ≠ none) :
    (xSendn fd b str nLen).run (withSends w (used ++ rest)) =
      .ok (returned (total (used.map sendReply)) out)
        (withSends (afterSend w fd rb str used) rest) := by
  have hturns : used.length < (used ++ rest).length+1 := by
    rw [List.length_append]
    omega
  have hloop : (xSendnLoop fd b nLen ((used ++ rest).length+1) str nLen).run
      (withSends w (used ++ rest)) = _ :=
    sendLoop_pumped hlen hP (Nat.le_refl _) hopen hrb hturns
  rw [Nat.sub_self, Nat.zero_add] at hloop
  unfold xSendn
  rw [cInt_small (by omega) (by omega), bind_ok (get_run _)]
  exact hloop

/-- Both loops return after finitely many calls. A result that is not negative
counts the bytes moved from `str` on, all of them unless the last call reported
`EAGAIN`; `-2` is the end of the stream, and `-1` an error. -/
theorem transfers_exact (hlen : nLen < 2147483648) (hrb : w.heap.bufs.get b = some rb) :
    (∀ a : ℕ → RecvAnswer, Allowed nLen (fun i => recvReply (a i)) →
      Persistent (fun i => recvReply (a i)) → (w.fds fd = none → ∀ i bytes, a i ≠ .got bytes) →
      ∃ k r w', (∀ m, (xRecvn fd b str nLen).run (withRecvs w (first a (k+m))) =
          .ok r (withRecvs w' (first (after a k) m))) ∧
        Returned nLen ((first a k).map recvReply) r ∧
        (0 ≤ r → Carried .recv w w' fd b rb str r.toNat)) ∧
    (∀ a : ℕ → SendAnswer, Allowed nLen (fun i => sendReply (a i)) →
      Persistent (fun i => sendReply (a i)) → (w.fds fd = none → ∀ i k, a i ≠ .sent k) →
      ∃ k r w', (∀ m, (xSendn fd b str nLen).run (withSends w (first a (k+m))) =
          .ok r (withSends w' (first (after a k) m))) ∧
        Returned nLen ((first a k).map sendReply) r ∧
        (0 ≤ r → Carried .send w w' fd b rb str r.toNat)) := by
  constructor
  · intro a hallowed hpersist hclosed
    obtain ⟨k,out,hP⟩ := pumped_ends nLen hallowed hpersist
    rw [first_map] at hP
    have hopen : ∀ bytes, .got bytes ∈ first a k → w.fds fd ≠ none := by
      intro bytes hmem hnone
      obtain ⟨i,-,hi⟩ := mem_first.mp hmem
      exact hclosed hnone i bytes hi
    refine ⟨k, _, afterRecv w fd b rb str (first a k), fun m => ?_, returned_exact hP, fun hr => ?_⟩
    · rw [first_add]
      exact xRecvn_run_pumped hlen hrb hP hopen
    · rw [returned_count hr]
      exact afterRecv_carried hopen
  · intro a hallowed hpersist hclosed
    obtain ⟨k,out,hP⟩ := pumped_ends nLen hallowed hpersist
    rw [first_map] at hP
    have hopen : ∀ k', .sent k' ∈ first a k → w.fds fd ≠ none := by
      intro k' hmem hnone
      obtain ⟨i,-,hi⟩ := mem_first.mp hmem
      exact hclosed hnone i k' hi
    refine ⟨k, _, afterSend w fd rb str (first a k), fun m => ?_, returned_exact hP, fun hr => ?_⟩
    · rw [first_add]
      exact xSendn_run_pumped hlen hrb hP hopen
    · rw [returned_count hr]
      exact afterSend_carried hrb hopen

def oneBuffer : World :=
  (EventLoop.listener ⟨10, 10, [], 0, 1⟩ (pushBlock zeroedBuf
    ⟨⟨0, 1, nodeBufsiz, sizeofXtpBuf, []⟩, Store.empty, []⟩)).openFd 5 ⟨0, .client⟩

theorem transfers_exact_bytewise : ∃ k w',
    (xRecvn 5 0 64 4).run (withRecvs oneBuffer (first (fun _ => .got [7]) k)) = .ok 4 w' := by
  have hreplies : ∀ k, (first (fun _ => RecvAnswer.got [7]) k).map recvReply =
      List.replicate k (.moved 1) := by
    intro k
    simp [first, recvReply]
  have htotal : ∀ k, total (List.replicate k (.moved 1)) = k := by
    intro k
    induction k with
    | zero => rfl
    | succ k ih =>
      rw [List.replicate_succ, total_cons, ih, Reply.amount]
      omega
  have hallowed : Allowed 4 (fun _ => recvReply (.got [7])) := by
    intro i _ hlt
    rw [first_map (a := fun _ => RecvAnswer.got [7]), hreplies, htotal] at hlt ⊢
    exact hlt
  have hpersist : Persistent (fun _ => recvReply (.got [7])) := fun i =>
    ⟨i, Nat.le_refl i, by simp [recvReply]⟩
  obtain ⟨k,r,w',hrun,hR,-⟩ := (@transfers_exact oneBuffer 5 0 _ 64 4 (by decide) rfl).1
    (fun _ => .got [7]) hallowed hpersist (fun h => by cases h)
  rw [hreplies] at hR
  have hclosed : r ≠ -2 := fun h => by simpa using hR.closed.mp h
  have hfailed : r ≠ -1 := fun h => by simpa using hR.failed.mp h
  have hpos : 0 ≤ r := by
    rcases hR.kinds with h | h | h
    · exact absurd h hclosed
    · exact absurd h hfailed
    · exact h
  obtain ⟨hle,-,hshort⟩ := hR.count hpos
  have hall : ¬ r < (4 : ℕ) := by
    intro hlt
    have hmem := List.mem_of_mem_getLast? (hshort hlt)
    simp at hmem
  have hfour : r = 4 := by omega
  subst hfour
  have hlast := hrun 0
  rw [Nat.add_zero] at hlast
  exact ⟨k, _, hlast⟩

end TcpFunnel.TransferResults
