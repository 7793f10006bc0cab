import Mathlib.Data.Nat.ModEq
import TcpFunnel.Actions

/-!
# What the transfer loops do

`x_recvn` appends a sequence of chunks behind the position it is given, and
`x_sendn` sends a sequence of windows from it. Both are described by the world
they leave: everything but the answers used, the block and the transfer
history is unchanged.
-/

set_option autoImplicit false

namespace TcpFunnel.TransferRuns
open TcpFunnel.BufferPool TcpFunnel.Connection TcpFunnel.SystemCalls TcpFunnel.TransferLoops
open TcpFunnel.Actions TcpFunnel.CInt

theorem answer_some {γ : Type} {read : Answers → List γ} {keep : Answers → List γ → Answers}
    {w : World} {a : γ} {rest : List γ} (h : read w.sys = a::rest) :
    (answer read keep).run w = .ok a (w.setSys (keep w.sys rest)) := by
  simp only [answer, EStateM.run_bind, EStateM.run_get, h]
  rfl

theorem answer_none {γ : Type} {read : Answers → List γ} {keep : Answers → List γ → Answers}
    {w : World} (h : read w.sys = []) : (answer read keep).run w = .error .pending w := by
  simp only [answer, EStateM.run_bind, EStateM.run_get, h]
  rfl

theorem bind_ok {α β : Type} {x : Callback α} {f : α → Callback β} {w w' : World} {a : α}
    (hx : x.run w = .ok a w') : (x >>= f).run w = (f a).run w' := by
  rw [EStateM.run_bind, hx]

theorem bind_error {α β : Type} {x : Callback α} {f : α → Callback β} {w w' : World} {e : Stop}
    (hx : x.run w = .error e w') : (x >>= f).run w = .error e w' := by
  rw [EStateM.run_bind, hx]

theorem get_run (w : World) : (get : Callback World).run w = .ok w w := rfl

theorem modify_run (f : World → World) (w : World) :
    (modify f : Callback Unit).run w = .ok () (f w) := rfl

theorem buf_run {h : Heap} {b : BufId} {rb : XtpBuf} (hrb : h.bufs.get b = some rb) :
    (buf b).run h = .ok rb h := by
  simp only [buf, EStateM.run_bind, EStateM.run_get, hrb]
  rfl

theorem onHeap_run {α : Type} (x : Pool α) (w : World) : (onHeap x).run w =
    match x.run w.heap with
    | .ok a h => .ok a (w.setHeap h)
    | .error e h => .error e (w.setHeap h) := rfl

def recvBytes : RecvAnswer → List UInt8
  | .got bytes => bytes
  | _ => []

/-- The last answer other than `EINTR` brought bytes. -/
def AfterData (answers : List RecvAnswer) : Prop :=
  ∃ pre bytes k, answers = pre ++ .got bytes::List.replicate k .eintr ∧ bytes ≠ []

def EndsStream (a : RecvAnswer) : Prop := a = .got [] ∨ a = .error

/-- The stream ends right behind bytes that leave a buffer partly filled: of
the bytes before, the first `room` ones fill up the last buffer of the pipe and
each following one holds `cap`. -/
def CutShort (room cap : ℕ) (answers : List RecvAnswer) : Prop :=
  ∃ pre last post, answers = pre ++ last::post ∧ AfterData pre ∧ EndsStream last ∧
    ¬ (pre.flatMap recvBytes).length ≡ room [MOD cap]

theorem AfterData.eintr {answers : List RecvAnswer} (h : AfterData answers) :
    AfterData (answers ++ [.eintr]) := by
  obtain ⟨pre,bytes,k,rfl,hb⟩ := h
  refine ⟨pre, bytes, k+1, ?_, hb⟩
  rw [List.replicate_succ']
  simp

theorem AfterData.got (answers : List RecvAnswer) {bytes : List UInt8} (h : bytes ≠ []) :
    AfterData (answers ++ [.got bytes]) :=
  ⟨answers, bytes, 0, rfl, h⟩

theorem AfterData.append (front : List RecvAnswer) {answers : List RecvAnswer}
    (h : AfterData answers) : AfterData (front ++ answers) := by
  obtain ⟨pre,bytes,k,rfl,hb⟩ := h
  exact ⟨front ++ pre, bytes, k, (List.append_assoc ..).symm, hb⟩

theorem CutShort.append {room room' cap : ℕ} {used answers : List RecvAnswer}
    (hroom : (used.flatMap recvBytes).length+room' ≡ room [MOD cap])
    (h : CutShort room' cap answers) : CutShort room cap (used ++ answers) := by
  obtain ⟨pre,last,post,rfl,hdata,hlast,hmod⟩ := h
  refine ⟨used ++ pre, last, post, (List.append_assoc ..).symm, hdata.append used, hlast, ?_⟩
  rw [List.flatMap_append, List.length_append]
  intro hm
  exact hmod (Nat.ModEq.add_left_cancel' _ (hm.trans hroom.symm))

theorem CutShort.direct {room cap : ℕ} {pre post : List RecvAnswer} {last : RecvAnswer}
    (hdata : AfterData pre) (hlast : EndsStream last)
    (hpos : 0 < (pre.flatMap recvBytes).length) (hlt : (pre.flatMap recvBytes).length < room)
    (hroom : room ≤ cap) : CutShort room cap (pre ++ last::post) := by
  refine ⟨pre, last, post, rfl, hdata, hlast, ?_⟩
  intro hm
  have hdvd := (Nat.modEq_iff_dvd' (Nat.le_of_lt hlt)).mp hm
  have hle := Nat.le_of_dvd (by omega) hdvd
  omega

theorem received_nil {w : World} {b : BufId} {rb : XtpBuf} (c : ConnId) (p : Pipe)
    (hrb : w.heap.bufs.get b = some rb) : received w c p b rb [] = w := by
  simp [received, receipts, setBlock, Store.set_self hrb]

theorem received_snoc (w : World) (c : ConnId) (p : Pipe) (b : BufId) (rb : XtpBuf)
    (chunks : List (List UInt8)) (bytes : List UInt8) :
    let data := Memory.write rb.data rb.last chunks.flatten
    ((received w c p b rb chunks).setHeap (setBlock (received w c p b rb chunks).heap b
        { rb with data := Memory.write data (rb.last+chunks.flatten.length) bytes })).transfer
      ⟨⟨c, source p⟩, .recv, bytes⟩ = received w c p b rb (chunks ++ [bytes]) := by
  simp [received, receipts, setBlock, World.setHeap, World.transfer, Memory.write_append]

theorem recv_run {w : World} {c : ConnId} {p : Pipe} {b : BufId} {rb : XtpBuf} {fd : ℤ}
    (hrb : w.heap.bufs.get b = some rb) (hfd : ∀ k, w.fds fd = some k → k = ⟨c, source p⟩)
    {a : RecvAnswer} {rest : List RecvAnswer} (hsys : w.sys.recvs = a::rest) (off n : ℕ) :
    (recv fd b off n).run w = .error .pending (w.setSys { w.sys with recvs := rest }) ∨
    (∃ bytes, a = .got bytes ∧ bytes.length ≤ n ∧
      (recv fd b off n).run w = .ok a ((((w.setSys { w.sys with recvs := rest }).setHeap
        (setBlock w.heap b { rb with data := Memory.write rb.data off bytes })).transfer
          ⟨⟨c, source p⟩, .recv, bytes⟩))) ∨
    ((∀ bytes, a ≠ .got bytes) ∧
      (recv fd b off n).run w = .ok a (w.setSys { w.sys with recvs := rest })) := by
  have hnext : nextRecv.run w = .ok a (w.setSys { w.sys with recvs := rest }) := answer_some hsys
  unfold recv
  rw [EStateM.run_bind, hnext]
  cases a with
  | eintr | eagain | error => exact Or.inr (Or.inr ⟨by simp, rfl⟩)
  | got bytes =>
    simp only [EStateM.run_bind, EStateM.run_get, World.setSys_frame]
    cases hk : w.fds fd with
    | none => exact Or.inl rfl
    | some k =>
      rw [hfd k hk]
      by_cases hn : n < bytes.length
      · left
        simp only [EStateM.run_bind, if_pos hn]
        rfl
      · right; left
        refine ⟨bytes, rfl, by omega, ?_⟩
        simp only [EStateM.run_bind, if_neg hn, onHeap_run, World.setSys_frame, buf_run hrb]
        rfl

structure RecvSoFar (w : World) (c : ConnId) (p : Pipe) (b : BufId) (rb : XtpBuf)
    (chunks : List (List UInt8)) (used : List RecvAnswer) (t : Answers) : Prop where
  sys : { w.sys with recvs := t.recvs } = t
  recvs : w.sys.recvs = used ++ t.recvs
  bytes : used.flatMap recvBytes = chunks.flatten

/-- How `x_recvn` ends: with the number of bytes received, or with an error
after an answer that ends the stream. -/
inductive RecvEnd (nLen : ℕ) (chunks : List (List UInt8)) (used : List RecvAnswer) : ℤ → Prop
  | count (h : chunks.flatten.length ≤ nLen) (hne : ∀ x ∈ chunks, x ≠ []) :
      RecvEnd nLen chunks used chunks.flatten.length
  | ended {len : ℤ} (pre : List RecvAnswer) (last : RecvAnswer) (hlen : len < 0)
      (hroom : chunks.flatten.length < nLen) (hused : used = pre ++ [last])
      (hlast : EndsStream last) (hdata : chunks.flatten ≠ [] → AfterData pre) :
      RecvEnd nLen chunks used len

theorem recv_none {w : World} (h : w.sys.recvs = []) (fd : ℤ) (b : BufId) (off n : ℕ) :
    (recv fd b off n).run w = .error .pending w := by
  unfold recv
  rw [EStateM.run_bind, show nextRecv.run w = .error .pending w from answer_none h]

section receiving

variable {w : World} {c : ConnId} {p : Pipe} {b : BufId} {rb : XtpBuf} {fd : ℤ} {nLen : ℕ}

inductive RecvResult (w : World) (c : ConnId) (p : Pipe) (b : BufId) (rb : XtpBuf) (nLen : ℕ) :
    EStateM.Result Stop World ℤ → Prop
  | returned {chunks used t len w'} (hw : w' = (received w c p b rb chunks).setSys t)
      (hs : RecvSoFar w c p b rb chunks used t) (hend : RecvEnd nLen chunks used len) :
      RecvResult w c p b rb nLen (.ok len w')
  | stopped (chunks t) (hfits : chunks.flatten.length ≤ nLen) : RecvResult w c p b rb nLen
      (.error .pending ((received w c p b rb chunks).setSys t))

theorem RecvSoFar.take {chunks : List (List UInt8)} {used : List RecvAnswer} {t : Answers}
    (hs : RecvSoFar w c p b rb chunks used t) {a : RecvAnswer} {rest : List RecvAnswer}
    (ht : t.recvs = a::rest) {chunks' : List (List UInt8)}
    (hc : chunks'.flatten = chunks.flatten ++ recvBytes a) :
    RecvSoFar w c p b rb chunks' (used ++ [a]) { t with recvs := rest } := by
  refine ⟨by rw [← hs.sys], by rw [hs.recvs, ht]; simp, ?_⟩
  rw [List.flatMap_append, hs.bytes, hc]
  simp

theorem RecvSoFar.shrinks {chunks : List (List UInt8)} {used : List RecvAnswer} {t : Answers}
    (hs : RecvSoFar w c p b rb chunks used t) : Shrinks w.sys t := by
  rw [← hs.sys]
  exact { shrinks_refl w.sys with recvs := ⟨used, hs.recvs.symm⟩ }

theorem xRecvnLoop_run (hfd : ∀ k, w.fds fd = some k → k = ⟨c, source p⟩) (hlen : nLen < 2147483648)
    (turns : ℕ)
    (chunks : List (List UInt8)) (used : List RecvAnswer) (t : Answers)
    (hs : RecvSoFar w c p b rb chunks used t) (hfits : chunks.flatten.length ≤ nLen)
    (hne : ∀ x ∈ chunks, x ≠ []) (hdata : chunks.flatten ≠ [] → AfterData used) :
    RecvResult w c p b rb nLen ((xRecvnLoop fd b nLen turns (rb.last+chunks.flatten.length)
      ((nLen : ℤ)-chunks.flatten.length)).run ((received w c p b rb chunks).setSys t)) := by
  induction turns generalizing chunks used t with
  | zero => exact .stopped chunks t hfits
  | succ turns ih =>
    have hcount : cInt ((nLen : ℤ)-((nLen : ℤ)-chunks.flatten.length)) = chunks.flatten.length := by
      rw [Int.sub_sub_self]
      exact cInt_small (by omega) (by omega)
    unfold xRecvnLoop
    by_cases hn : (nLen : ℤ)-chunks.flatten.length ≤ 0
    · rw [if_pos hn, hcount]
      exact .returned rfl hs (.count hfits hne)
    rw [if_neg hn, EStateM.run_bind]
    cases ht : t.recvs with
    | nil =>
      rw [recv_none (by simpa using ht)]
      exact .stopped chunks t hfits
    | cons a rest =>
      have hget : ((received w c p b rb chunks).setSys t).heap.bufs.get b =
          some { rb with data := Memory.write rb.data rb.last chunks.flatten } := by
        simp [received, setBlock]
      have hroom : chunks.flatten.length < nLen := by omega
      rcases recv_run hget hfd
        (show ((received w c p b rb chunks).setSys t).sys.recvs = a::rest from ht)
        (rb.last+chunks.flatten.length) ((nLen : ℤ)-chunks.flatten.length).toNat with
        h | ⟨bytes,rfl,hb,h⟩ | ⟨ha,h⟩
      · rw [h]
        exact .stopped chunks { t with recvs := rest } hfits
      · rw [h]
        have hworld :
            ((((received w c p b rb chunks).setSys t).setSys { t with recvs := rest }).setHeap
            (setBlock (received w c p b rb chunks).heap b { rb with
              data := Memory.write (Memory.write rb.data rb.last chunks.flatten)
                (rb.last+chunks.flatten.length) bytes })).transfer ⟨⟨c, source p⟩, .recv, bytes⟩ =
            (received w c p b rb (chunks ++ [bytes])).setSys { t with recvs := rest } := by
          rw [← received_snoc]
          rfl
        have htake : RecvSoFar w c p b rb (chunks ++ [bytes]) (used ++ [.got bytes])
            { t with recvs := rest } := hs.take ht (by simp [recvBytes])
        cases bytes with
        | nil =>
          refine .returned hworld htake (.ended used (.got []) (by decide) ?_ rfl (Or.inl rfl) ?_)
          · simpa using hroom
          · simpa using hdata
        | cons x xs =>
          have hsum : (chunks ++ [x::xs]).flatten.length =
              chunks.flatten.length+(x::xs).length := by
            simp
          have hne' : ∀ y ∈ chunks ++ [x::xs], y ≠ [] := by
            intro y hy
            rcases List.mem_append.mp hy with hy | hy
            · exact hne y hy
            · rw [List.mem_singleton.mp hy]
              simp
          have hih := ih (chunks ++ [x::xs]) _ _ htake (by omega) hne'
            (fun _ => AfterData.got used (by simp))
          rw [← hworld, hsum, ← Nat.add_assoc, Int.natCast_add, ← Int.sub_sub] at hih
          exact hih
      · rw [h]
        cases a with
        | got bytes => exact absurd rfl (ha bytes)
        | eintr =>
          exact ih chunks _ _ (hs.take ht (by simp [recvBytes])) hfits hne
            (fun h => (hdata h).eintr)
        | eagain =>
          refine .returned rfl (hs.take ht (by simp [recvBytes])) ?_
          rw [hcount]
          exact .count hfits hne
        | error =>
          exact .returned rfl (hs.take ht (by simp [recvBytes]))
            (.ended used .error (by decide) hroom rfl (Or.inr rfl) hdata)

theorem xRecvn_run (hrb : w.heap.bufs.get b = some rb)
    (hfd : ∀ k, w.fds fd = some k → k = ⟨c, source p⟩) (hlen : nLen < 2147483648) :
    RecvResult w c p b rb nLen ((xRecvn fd b rb.last nLen).run w) := by
  have hstart : RecvSoFar w c p b rb [] [] w.sys := ⟨rfl, rfl, rfl⟩
  have hloop := xRecvnLoop_run hfd hlen (w.sys.recvs.length+1) [] [] w.sys hstart
    (Nat.zero_le _) (by simp) (by simp)
  rw [received_nil c p hrb] at hloop
  unfold xRecvn
  rw [cInt_small (by omega) (by omega)]
  simpa using hloop

end receiving

theorem sends_append (k : Sock) (data : ℕ → UInt8) (off : ℕ) (xs ys : List ℕ) :
    sends k data off (xs ++ ys) = sends k data off xs ++ sends k data (off+xs.sum) ys := by
  induction xs generalizing off with
  | nil => rfl
  | cons x xs ih => simp [sends, ih, Nat.add_assoc]

theorem delivered_nil (w : World) (c : ConnId) (p : Pipe) (rb : XtpBuf) :
    delivered w c p rb [] = w := by
  simp [delivered, sends]

theorem delivered_snoc (w : World) (c : ConnId) (p : Pipe) (rb : XtpBuf) (ks : List ℕ) (k : ℕ) :
    (delivered w c p rb ks).transfer
      ⟨⟨c, target p⟩, .send, Memory.read rb.data (rb.pos+ks.sum) k⟩ =
    delivered w c p rb (ks ++ [k]) := by
  simp [delivered, World.transfer, sends_append, sends]

def EndsSend (a : SendAnswer) : Prop := a = .sent 0 ∨ a = .error

section sending

variable {w : World} {c : ConnId} {p : Pipe} {b : BufId} {rb : XtpBuf} {fd : ℤ} {nLen : ℕ}

structure SendSoFar (w : World) (ks : List ℕ) (used : List SendAnswer) (t : Answers) : Prop where
  sys : { w.sys with sends := t.sends } = t
  sends : w.sys.sends = used ++ t.sends

/-- How `x_sendn` ends: with everything sent, with `EAGAIN` as the last
answer, or with an error. -/
inductive SendEnd (nLen : ℕ) (ks : List ℕ) (used : List SendAnswer) : ℤ → Prop
  | all (h : ks.sum = nLen) : SendEnd nLen ks used ks.sum
  | again (h : ks.sum < nLen) (hpos : ∀ k ∈ ks, 0 < k) (hlast : used.getLast? = some .eagain) :
      SendEnd nLen ks used ks.sum
  | failed {len : ℤ} (hlen : len < 0) (h : ks.sum < nLen) (last : SendAnswer)
      (hused : used.getLast? = some last) (hlast : EndsSend last) : SendEnd nLen ks used len

inductive SendResult (w : World) (c : ConnId) (p : Pipe) (rb : XtpBuf) (nLen : ℕ) :
    EStateM.Result Stop World ℤ → Prop
  | returned {ks used t len w'} (hw : w' = (delivered w c p rb ks).setSys t)
      (hs : SendSoFar w ks used t) (hend : SendEnd nLen ks used len) :
      SendResult w c p rb nLen (.ok len w')
  | stopped (ks t) (hks : ks.sum ≤ nLen) :
      SendResult w c p rb nLen (.error .pending ((delivered w c p rb ks).setSys t))

theorem SendSoFar.take {ks ks' : List ℕ} {used : List SendAnswer} {t : Answers}
    (hs : SendSoFar w ks used t) {a : SendAnswer} {rest : List SendAnswer}
    (ht : t.sends = a::rest) : SendSoFar w ks' (used ++ [a]) { t with sends := rest } :=
  ⟨by rw [← hs.sys], by rw [hs.sends, ht]; simp⟩

theorem SendSoFar.shrinks {ks : List ℕ} {used : List SendAnswer} {t : Answers}
    (hs : SendSoFar w ks used t) : Shrinks w.sys t := by
  rw [← hs.sys]
  exact { shrinks_refl w.sys with sends := ⟨used, hs.sends.symm⟩ }

theorem send_none (h : w.sys.sends = []) (off n : ℕ) :
    (send fd b off n).run w = .error .pending w := by
  unfold send
  rw [EStateM.run_bind, show nextSend.run w = .error .pending w from answer_none h]

theorem send_run (hrb : w.heap.bufs.get b = some rb)
    (hfd : ∀ k, w.fds fd = some k → k = ⟨c, target p⟩) {a : SendAnswer} {rest : List SendAnswer}
    (hsys : w.sys.sends = a::rest) (off n : ℕ) :
    (send fd b off n).run w = .error .pending (w.setSys { w.sys with sends := rest }) ∨
    (∃ k, a = .sent k ∧ k ≤ n ∧
      (send fd b off n).run w = .ok a ((w.setSys { w.sys with sends := rest }).transfer
          ⟨⟨c, target p⟩, .send, Memory.read rb.data off k⟩)) ∨
    ((∀ k, a ≠ .sent k) ∧
      (send fd b off n).run w = .ok a (w.setSys { w.sys with sends := rest })) := by
  have hnext : nextSend.run w = .ok a (w.setSys { w.sys with sends := rest }) := answer_some hsys
  unfold send
  rw [EStateM.run_bind, hnext]
  cases a with
  | eintr | eagain | error => exact Or.inr (Or.inr ⟨by simp, rfl⟩)
  | sent k =>
    simp only [EStateM.run_bind, EStateM.run_get, World.setSys_frame]
    cases hk : w.fds fd with
    | none => exact Or.inl rfl
    | some s =>
      rw [hfd s hk]
      by_cases hn : n < k
      · left
        simp only [EStateM.run_bind, if_pos hn]
        rfl
      · right; left
        refine ⟨k, rfl, by omega, ?_⟩
        simp only [EStateM.run_bind, if_neg hn, onHeap_run, World.setSys_frame, buf_run hrb]
        rfl

theorem xSendnLoop_run (hrb : w.heap.bufs.get b = some rb)
    (hfd : ∀ k, w.fds fd = some k → k = ⟨c, target p⟩) (hlen : nLen < 2147483648)
    (turns : ℕ) (ks : List ℕ) (used : List SendAnswer) (t : Answers) (hs : SendSoFar w ks used t)
    (hfits : ks.sum ≤ nLen) (hne : ∀ k ∈ ks, 0 < k) :
    SendResult w c p rb nLen ((xSendnLoop fd b nLen turns (rb.pos+ks.sum)
      ((nLen : ℤ)-ks.sum)).run ((delivered w c p rb ks).setSys t)) := by
  induction turns generalizing ks used t with
  | zero => exact .stopped ks t hfits
  | succ turns ih =>
    have hcount : cInt ((nLen : ℤ)-((nLen : ℤ)-ks.sum)) = ks.sum := by
      rw [Int.sub_sub_self]
      exact cInt_small (by omega) (by omega)
    unfold xSendnLoop
    by_cases hn : (nLen : ℤ)-ks.sum ≤ 0
    · rw [if_pos hn, hcount]
      exact .returned rfl hs (.all (by omega))
    rw [if_neg hn, EStateM.run_bind]
    have hroom : ks.sum < nLen := by omega
    cases ht : t.sends with
    | nil =>
      rw [send_none (by simpa using ht)]
      exact .stopped ks t hfits
    | cons a rest =>
      have hget : ((delivered w c p rb ks).setSys t).heap.bufs.get b = some rb := by simpa using hrb
      rcases send_run hget hfd (show ((delivered w c p rb ks).setSys t).sys.sends = a::rest from ht)
        (rb.pos+ks.sum) ((nLen : ℤ)-ks.sum).toNat with h | ⟨k,rfl,hk,h⟩ | ⟨ha,h⟩
      · rw [h]
        exact .stopped ks { t with sends := rest } hfits
      · rw [h]
        have hworld : (((delivered w c p rb ks).setSys t).setSys { t with sends := rest }).transfer
            ⟨⟨c, target p⟩, .send, Memory.read rb.data (rb.pos+ks.sum) k⟩ =
            (delivered w c p rb (ks ++ [k])).setSys { t with sends := rest } := by
          rw [← delivered_snoc]
          rfl
        have htake : SendSoFar w (ks ++ [k]) (used ++ [.sent k]) { t with sends := rest } :=
          hs.take ht
        cases k with
        | zero =>
          exact .returned hworld htake (.failed (by decide) (by simpa using hroom) (.sent 0)
            (by simp) (Or.inl rfl))
        | succ m =>
          have hsum : (ks ++ [m+1]).sum = ks.sum+(m+1) := by simp
          have hne' : ∀ y ∈ ks ++ [m+1], 0 < y := by
            intro y hy
            rcases List.mem_append.mp hy with hy | hy
            · exact hne y hy
            · rw [List.mem_singleton.mp hy]
              omega
          have hih := ih (ks ++ [m+1]) _ _ htake (by omega) hne'
          rw [← hworld, hsum, ← Nat.add_assoc rb.pos, Int.natCast_add, ← Int.sub_sub] at hih
          exact hih
      · rw [h]
        cases a with
        | sent k => exact absurd rfl (ha k)
        | eintr => exact ih ks _ _ (hs.take ht) hfits hne
        | eagain =>
          refine .returned rfl (hs.take ht) ?_
          rw [hcount]
          exact .again hroom hne (by simp)
        | error =>
          exact .returned rfl (hs.take ht)
            (.failed (by decide) hroom .error (by simp) (Or.inr rfl))

theorem xSendn_run (hrb : w.heap.bufs.get b = some rb)
    (hfd : ∀ k, w.fds fd = some k → k = ⟨c, target p⟩) (hlen : nLen < 2147483648) :
    SendResult w c p rb nLen ((xSendn fd b rb.pos nLen).run w) := by
  have hloop := xSendnLoop_run hrb hfd hlen (w.sys.sends.length+1) [] [] w.sys
    ⟨rfl, rfl⟩ (Nat.zero_le _) (by simp)
  rw [delivered_nil] at hloop
  unfold xSendn
  rw [cInt_small (by omega) (by omega)]
  simpa using hloop

end sending

end TcpFunnel.TransferRuns
