import TcpFunnel.StageInvariant
import TcpFunnel.TransferRuns

/-!
# The pipes

Receiving into a pipe, sending from it, and linking and unlinking its buffers
are simulated by the actions on that pipe.
-/

set_option autoImplicit false

namespace TcpFunnel.PipeSimulation
open TcpFunnel.BufferPool TcpFunnel.Connection TcpFunnel.SystemCalls TcpFunnel.TransferLoops
open TcpFunnel.Upstream TcpFunnel.Access TcpFunnel.Simulation TcpFunnel.Actions
open TcpFunnel.Invariants TcpFunnel.CInt
open TcpFunnel.BufferInvariant TcpFunnel.StageInvariant TcpFunnel.TransferRuns

variable {o : Option ConnId} {s t : Stage}

theorem sim_pending {α : Type} {x : Callback α} {post : α → Stage → Prop} {w' : World}
    (hx : x.run s.w = .error .pending w') (hpath : Acts o s t) (hio : w'.io = t.w.io)
    (hlog : w'.log = t.w.log) : Sim o s x post :=
  Simulated.error hx hpath ⟨hio, hlog, Or.inl rfl⟩

theorem sim_pending_bind {α β : Type} {x : Callback α} {f : α → Callback β}
    {post : β → Stage → Prop} {w' : World} (hx : x.run s.w = .error .pending w')
    (hpath : Acts o s t) (hio : w'.io = t.w.io) (hlog : w'.log = t.w.log) :
    Sim o s (x >>= f) post :=
  sim_pending (by rw [EStateM.run_bind, hx]) hpath hio hlog

theorem sim_step {α β : Type} {x : Callback α} {f : α → Callback β} {a : α}
    {post : β → Stage → Prop} (hpath : Acts o s t) (hx : x.run s.w = .ok a t.w)
    (hf : Sim o t (f a) post) : Sim o s (x >>= f) post :=
  .step hx (.moved hpath rfl hf)

theorem conn_run {w : World} {c : ConnId} {r : XtpConn} (hr : w.conns.get c = some r) :
    (conn c).run w = .ok r w := by
  simp only [conn, EStateM.run_bind, EStateM.run_get, hr]
  rfl

theorem conn_none {w : World} {c : ConnId} (hr : w.conns.get c = none) :
    (conn c).run w = .error .useAfterFree w := by
  simp only [conn, EStateM.run_bind, EStateM.run_get, hr]
  rfl

theorem setConn_run {w : World} {c : ConnId} {r : XtpConn} (hr : w.conns.get c = some r)
    (f : XtpConn → XtpConn) : (setConn c f).run w = .ok () (w.putConn c (f r)) := by
  unfold setConn
  rw [EStateM.run_bind, conn_run hr]
  rfl

theorem setBuf_run {w : World} {b : BufId} {rb : XtpBuf} (hrb : w.heap.bufs.get b = some rb)
    (f : XtpBuf → XtpBuf) :
    (setBuf b f).run w = .ok () (w.setHeap (setBlock w.heap b (f rb))) := by
  unfold setBuf
  rw [EStateM.run_bind, onHeap_run, buf_run hrb]
  rfl

def Grows (h h' : Heap) : Prop :=
  ∀ (o : Option ConnId) (w : World) b d fs is, w.heap = h →
    Acts o ⟨w, b, d, fs, is⟩ ⟨w.setHeap h', b, d, fs, is⟩

theorem grows_refl (h : Heap) : Grows h h := by
  rintro o w b d fs is rfl
  exact .refl

theorem grows_trans {h h' h'' : Heap} (h1 : Grows h h') (h2 : Grows h' h'') : Grows h h'' := by
  intro o w b d fs is hw
  exact (h1 o w b d fs is hw).trans (h2 o (w.setHeap h') b d fs is rfl)

theorem grows_mallocs (h : Heap) (l : List Bool) : Grows h { h with mallocs := l } := by
  rintro o w b d fs is rfl
  exact .single (.mallocs l)

theorem grows_countMax (h : Heap) (h0 : h.bp.max = 0) : Grows h { h with bp.max := 1 } := by
  rintro o w b d fs is rfl
  exact .single (.countMax h0)

theorem grows_block (h : Heap) :
    Grows h (pushBlock (fun bp => rewound (zeroedBuf bp) bp) h) := by
  rintro o w b d fs is rfl
  exact .single .addBlock

/-- Every block on the free list exists, and new ones have room for a header. -/
structure HeadLive (h : Heap) : Prop where
  live : ∀ b ∈ h.bp.head, ∃ r, h.bufs.get b = some r
  room : (h.bp.offset : ℤ) ≤ h.bp.size

theorem headLive_push {h : Heap} (hlive : HeadLive h) (make : XtpBufPool → XtpBuf) :
    HeadLive (pushBlock make h) where
  live := by
    intro b hb
    simp only [pushBlock, Store.push_get]
    by_cases hn : b = h.bufs.next
    · exact ⟨_, if_pos hn⟩
    · rw [if_neg hn]
      exact hlive.live b ((List.mem_cons.mp hb).resolve_left hn)
  room := hlive.room

theorem malloc_run {h : Heap} {got : Bool} {rest : List Bool} (hm : h.mallocs = got::rest) :
    malloc.run h = .ok got { h with mallocs := rest } := by
  simp only [malloc, EStateM.run_bind, EStateM.run_get, hm]
  rfl

theorem malloc_none {h : Heap} (hm : h.mallocs = []) : malloc.run h = .error .pending h := by
  simp only [malloc, EStateM.run_bind, EStateM.run_get, hm]
  rfl

def Grown {α : Type} (h : Heap) : EStateM.Result Stop Heap α → Prop
  | .ok _ h' => Grows h h' ∧ HeadLive h'
  | .error e _ => e = .pending

theorem grown_trans {α : Type} {h h' : Heap} {x : EStateM.Result Stop Heap α} (h1 : Grows h h')
    (hx : Grown h' x) : Grown h x := by
  cases x with
  | ok a h'' => exact ⟨grows_trans h1 hx.1, hx.2⟩
  | error e h'' => exact hx

theorem addBlocks_run (n : ℕ) (h : Heap) (hlive : HeadLive h) :
    Grown h ((addBlocks (fun bp => rewound (zeroedBuf bp) bp) n).run h) := by
  induction n generalizing h with
  | zero => exact ⟨grows_refl h, hlive⟩
  | succ n ih =>
    cases hm : h.mallocs with
    | nil =>
      unfold addBlocks
      rw [EStateM.run_bind, malloc_none hm]
      rfl
    | cons got rest =>
      have h1 := grows_mallocs h rest
      unfold addBlocks
      rw [EStateM.run_bind, malloc_run hm]
      have hlive' : HeadLive { h with mallocs := rest } := ⟨hlive.live, hlive.room⟩
      cases got with
      | false => exact grown_trans h1 (ih _ hlive')
      | true =>
        simp only [if_true, EStateM.run_bind, EStateM.run_get]
        rw [if_neg (Int.not_lt.mpr hlive.room)]
        exact grown_trans (grows_trans h1 (grows_block _)) (ih _ (headLive_push hlive' _))

theorem xBufRalloc_run (num : ℤ) (h : Heap) (hlive : HeadLive h) :
    Grown h ((xBufRalloc num).run h) := by
  unfold xBufRalloc
  by_cases h0 : h.bp.max = 0
  · have hmax : { h with bp.max := if h.bp.max ≠ 0 then h.bp.max else 1 } =
        { h with bp.max := 1 } := by rw [if_neg (not_not.mpr h0)]
    have hrun := addBlocks_run (if num ≠ 0 then num else 1).toNat { h with bp.max := 1 }
      ⟨hlive.live, hlive.room⟩
    simp only [EStateM.run_bind, EStateM.run_modify, EStateM.run_get, hmax]
    exact grown_trans (grows_countMax h h0) hrun
  · have hmax : { h with bp.max := if h.bp.max ≠ 0 then h.bp.max else 1 } = h := by rw [if_pos h0]
    simp only [EStateM.run_bind, EStateM.run_modify, EStateM.run_get, hmax]
    exact addBlocks_run _ h hlive

def takenHead (h : Heap) (b : BufId) (rest : List BufId) (rb : XtpBuf) : Heap where
  bp := { h.bp with head := rest, n := cInt (h.bp.n-1) }
  bufs := h.bufs.set b (rewound rb h.bp)
  mallocs := h.mallocs

/-- `x_buf_alloc` hands out the head of the free list of a pool that may have
grown before. -/
theorem xBufAllocAt_run (k : ℕ) (h : Heap) (hlive : HeadLive h) :
    match (xBufAllocAt k).run h with
    | .ok b h' => ∃ h1 rest rb, Grows h h1 ∧ h1.bp.head = b::rest ∧ h1.bufs.get b = some rb ∧
        h' = takenHead h1 b rest rb
    | .error e _ => e = .pending := by
  induction k generalizing h with
  | zero => exact rfl
  | succ k ih =>
    unfold xBufAllocAt
    simp only [EStateM.run_bind, EStateM.run_get]
    cases hhead : h.bp.head with
    | nil =>
      have hgrown := xBufRalloc_run 0 h hlive
      simp only [EStateM.run_bind]
      cases hrun : (xBufRalloc 0).run h with
      | error e h' =>
        rw [hrun] at hgrown
        exact hgrown
      | ok a h' =>
        rw [hrun] at hgrown
        have hih := ih h' hgrown.2
        simp only
        cases halloc : (xBufAllocAt k).run h' with
        | error e h'' =>
          rw [halloc] at hih
          exact hih
        | ok b h'' =>
          rw [halloc] at hih
          obtain ⟨h1,rest,rb,hg,hh⟩ := hih
          exact ⟨h1, rest, rb, grows_trans hgrown.1 hg, hh⟩
    | cons b rest =>
      obtain ⟨rb,hrb⟩ := hlive.live b (hhead ▸ List.mem_cons_self ..)
      simp only [EStateM.run_bind, buf_run hrb]
      exact ⟨h, rest, rb, grows_refl h, hhead, hrb, rfl⟩

theorem act_geometry (h : Act o s t) : t.w.heap.bp.offset = s.w.heap.bp.offset ∧
    t.w.heap.bp.size = s.w.heap.bp.size := by
  cases h with
  | requested => split <;> exact ⟨rfl, rfl⟩
  | _ => simp [pushBlock, linked, unlinked, filled, received, drained, setBlock]

theorem path_geometry (h : Acts o s t) : t.w.heap.bp.offset = s.w.heap.bp.offset ∧
    t.w.heap.bp.size = s.w.heap.bp.size := by
  induction h with
  | refl => exact ⟨rfl, rfl⟩
  | tail _ ha ih =>
    obtain ⟨h1,h2⟩ := act_geometry ha
    exact ⟨h1.trans ih.1, h2.trans ih.2⟩

def capacity (h : Heap) : ℕ := (h.bp.size-1).toNat-h.bp.offset

theorem path_capacity (h : Acts o s t) : capacity t.w.heap = capacity s.w.heap := by
  obtain ⟨h1,h2⟩ := path_geometry h
  unfold capacity
  rw [h1, h2]

section filling

variable {w : World} {fs : List Failure} {is : List Incident} {c : ConnId} {p : Pipe}
variable {r : XtpConn} {b : BufId} {rb : XtpBuf} {fd : ℤ}

theorem headLive_of (hB : Buffers s) : HeadLive s.w.heap where
  live := by
    intro b hb
    obtain ⟨r,hr,-⟩ := hB.head b hb
    exact ⟨r, hr⟩
  room := by
    have hroom := hB.room
    omega

theorem linked_get (w : World) (c : ConnId) (p : Pipe) (r : XtpConn) (b : BufId)
    (rest : List BufId) (rb : XtpBuf) :
    (linked w c p r b rest rb).heap.bufs.get b = some (rewound rb w.heap.bp) := by
  simp [linked]

theorem sim_linkBuf {full : Bool} {β : Type} {f : BufId → Callback β} {post : β → Stage → Prop}
    (hI : Inv ⟨w, .filling c p full, false, fs, is⟩) (hr : w.conns.get c = some r)
    (hp : r.pipe p = [] ∨ full = true)
    (hf : ∀ h1 b rest rb, Acts (some c) ⟨w, .filling c p full, false, fs, is⟩
        ⟨linked (w.setHeap h1) c p r b rest rb, .filling c p false, false, fs, is⟩ →
      Sim (some c) ⟨linked (w.setHeap h1) c p r b rest rb, .filling c p false, false, fs, is⟩
        (f b) post) :
    Sim (some c) ⟨w, .filling c p full, false, fs, is⟩ (linkBuf c p >>= f) post := by
  have halloc := xBufAllocAt_run (w.heap.mallocs.length+1) w.heap (headLive_of hI.buffers)
  have hrun : xBufAlloc.run w.heap = (xBufAllocAt (w.heap.mallocs.length+1)).run w.heap := rfl
  cases hres : (xBufAllocAt (w.heap.mallocs.length+1)).run w.heap with
  | error e h' =>
    rw [hres] at halloc
    have hlink : (linkBuf c p >>= f).run w = .error e (w.setHeap h') := by
      unfold linkBuf
      simp only [EStateM.run_bind, onHeap_run, hrun, hres]
    rw [halloc] at hlink
    exact sim_pending hlink .refl rfl rfl
  | ok b h' =>
    rw [hres] at halloc
    obtain ⟨h1,rest,rb,hg,hhead,hrb,rfl⟩ := halloc
    have hpath : Acts (some c) ⟨w, .filling c p full, false, fs, is⟩
        ⟨linked (w.setHeap h1) c p r b rest rb, .filling c p false, false, fs, is⟩ :=
      (hg _ w _ _ _ _ rfl).tail (.link hr hhead hrb hp)
    refine sim_step hpath ?_ (hf h1 b rest rb hpath)
    unfold linkBuf
    simp only [EStateM.run_bind, onHeap_run, hrun, hres]
    rw [setConn_run (by simpa using hr)]
    rfl

/-- A record that is not being closed: it has not been marked as timed out,
and it is queued only while it waits. -/
def Regular (w : World) (c : ConnId) : Prop :=
  ∀ r, w.conns.get c = some r →
    r.status ≠ .timeout ∧ (c ∈ w.ln.cqWaiting → r.status = .waiting)

theorem inv_regular (hI : Inv s) (hbusy : s.busy ≠ .closing c) : Regular s.w c := by
  intro r hr
  constructor
  · intro ht
    rcases (hI.records.phase c r hr).status with h | h | h | h | h
    · rw [ht] at h; cases h
    · rw [ht] at h; cases h
    · rw [ht] at h; cases h
    · rw [ht] at h; cases h
    · exact hbusy h.2
  · intro hc
    exact (hI.queue.mem c hc r hr).1.resolve_right hbusy

/-- What `recv2buf` leaves to be done, and what it may have lost. -/
structure RecvDone (s : Stage) (c : ConnId) (p : Pipe) (room : ℕ) (ok : Bool) (t : Stage) :
    Prop where
  busy : t.busy = if ok then .filling c p false else broken c p (source p)
  due : t.due = false
  failures : t.failures = s.failures
  incidents : t.incidents = s.incidents ∨ p = .pipe2 ∧ t.incidents = s.incidents ++ [.bytesLost c] ∧
    CutShort room (capacity s.w.heap) s.w.sys.recvs
  regular : Regular t.w c
  readable : ∀ r, t.w.conns.get c = some r → Readable r p

theorem RecvDone.later {w' : World} {used : List RecvAnswer} {room room' : ℕ} {ok : Bool}
    (h : RecvDone ⟨w', .filling c p false, false, fs, is⟩ c p room' ok t)
    (hcap : capacity w'.heap = capacity w.heap) (hused : w.sys.recvs = used ++ w'.sys.recvs)
    (hroom : (used.flatMap recvBytes).length+room' ≡ room [MOD capacity w.heap]) :
    RecvDone ⟨w, .filling c p false, false, fs, is⟩ c p room ok t := by
  refine ⟨h.busy, h.due, h.failures, h.incidents.imp_right ?_, h.regular, h.readable⟩
  rintro ⟨hp,hi,hc⟩
  refine ⟨hp, hi, ?_⟩
  simp only [hcap] at hc
  simp only [hused]
  exact hc.append hroom

theorem tail_room (hI : Inv ⟨w, .filling c p false, false, fs, is⟩)
    (hr : w.conns.get c = some r) (hb : (r.pipe p).getLast? = some b)
    (hrb : w.heap.bufs.get b = some rb) :
    rb.last < rb.endPos ∧ rb.endPos-rb.last ≤ capacity w.heap ∧ rb.endPos < 2147483648 := by
  have hshape := hI.buffers.shape c p
  rw [pipes_of hr] at hshape
  have hlt := hshape.tail b hb rb hrb
  obtain ⟨rb',hrb',hp⟩ := hshape.each b (List.mem_of_mem_getLast? hb)
  cases hrb.symm.trans hrb'
  have hroom : w.heap.bp.offset < (w.heap.bp.size-1).toNat := hI.buffers.room
  have hsmall : w.heap.bp.size < 2147483648 := hI.buffers.small
  have hstart : rb.start = w.heap.bp.offset := hp.startAt
  have hend : rb.endPos = (w.heap.bp.size-1).toNat := hp.endAt
  have hpos := hp.startPos
  have hlast := hp.posLast
  simp only [Busy.full, Busy.filling.injEq, Bool.false_eq_true, and_false, decide_false,
    if_false] at hlt
  refine ⟨hlt, ?_, by omega⟩
  unfold capacity
  omega

theorem received_last (w : World) (c : ConnId) (p : Pipe) (b : BufId) (rb : XtpBuf)
    (chunks : List (List UInt8)) (t : Answers) :
    ((received w c p b rb chunks).setSys t).setHeap
      (setBlock ((received w c p b rb chunks).setSys t).heap b { rb with
        data := Memory.write rb.data rb.last chunks.flatten
        last := rb.last+chunks.flatten.length }) =
    filled (w.setSys t) c p b rb chunks := by
  simp [received, filled, setBlock, World.setSys, World.setHeap]

/-- Bytes are lost when the stream ends before the buffer is full. -/
theorem lost_cutShort {chunks : List (List UInt8)} {used pre : List RecvAnswer} {t : Answers}
    {last : RecvAnswer} {room cap : ℕ} (hs : RecvSoFar w c p b rb chunks used t)
    (hused : used = pre ++ [last]) (hlast : EndsStream last) (hdata : AfterData pre)
    (hne : chunks.flatten ≠ []) (hroom : chunks.flatten.length < room) (hcap : room ≤ cap) :
    CutShort room cap w.sys.recvs := by
  have hbytes : pre.flatMap recvBytes = chunks.flatten := by
    rw [← hs.bytes, hused, List.flatMap_append]
    rcases hlast with rfl | rfl <;> simp [recvBytes]
  have hrecvs : w.sys.recvs = pre ++ last::t.recvs := by
    rw [hs.recvs, hused, List.append_assoc]
    rfl
  rw [hrecvs]
  refine CutShort.direct hdata hlast ?_ (by rw [hbytes]; exact hroom) hcap
  rw [hbytes]
  exact List.length_pos_iff.mpr hne

theorem no_chunks {chunks : List (List UInt8)} (hne : ∀ x ∈ chunks, x ≠ [])
    (hzero : chunks.flatten.length = 0) : chunks = [] := by
  cases chunks with
  | nil => rfl
  | cons x xs =>
    have hx : x = [] := by
      rw [List.length_eq_zero_iff, List.flatten_eq_nil_iff] at hzero
      exact hzero x (List.mem_cons_self ..)
    exact absurd hx (hne x (List.mem_cons_self ..))

theorem sim_recv2buf (turns : ℕ) {w : World} {r : XtpConn} {b : BufId} {rb : XtpBuf}
    (hI : Inv ⟨w, .filling c p false, false, fs, is⟩) (hr : w.conns.get c = some r)
    (hb : (r.pipe p).getLast? = some b) (hrb : w.heap.bufs.get b = some rb)
    (hfd : ∀ k, w.fds fd = some k → k = ⟨c, source p⟩) :
    Sim (some c) ⟨w, .filling c p false, false, fs, is⟩ (recv2buf c p fd turns b)
      (RecvDone ⟨w, .filling c p false, false, fs, is⟩ c p (rb.endPos-rb.last)) := by
  induction turns generalizing w r b rb with
  | zero => exact sim_pending rfl .refl rfl rfl
  | succ turns ih =>
    obtain ⟨hlt,hcap,hsmall⟩ := tail_room hI hr hb hrb
    have hlen : rb.endPos-rb.last < 2147483648 := Nat.lt_of_le_of_lt (Nat.sub_le ..) hsmall
    unfold recv2buf
    refine .step (by rw [onHeap_run, buf_run hrb]) ?_
    rw [if_neg (Nat.ne_of_lt hlt)]
    have hreg : Regular w c := inv_regular hI (by simp)
    have hread : ∀ r, w.conns.get c = some r → Readable r p := hI.records.readable c p false rfl
    have hrecv := @xRecvn_run w c p b rb fd (rb.endPos-rb.last) hrb hfd hlen
    cases hres : (xRecvn fd b rb.last (rb.endPos-rb.last)).run w with
    | error e w' =>
      rw [hres] at hrecv
      obtain _ | ⟨chunks,t,hfits⟩ := hrecv
      exact sim_pending_bind hres (.single (.lose chunks hr hb hrb (by omega))) rfl rfl
    | ok len w' =>
      rw [hres] at hrecv
      obtain ⟨rfl,hs,hend⟩ | _ := hrecv
      rename_i chunks used t
      have hanswers : Acts (some c) ⟨w, .filling c p false, false, fs, is⟩
          ⟨w.setSys t, .filling c p false, false, fs, is⟩ := .single (.answers t hs.shrinks)
      cases hend with
      | ended pre last hneg hroom hused hlast hdata =>
        have hlose := hanswers.tail (.lose chunks hr hb hrb (by omega))
        refine sim_step hlose hres ?_
        rw [if_pos hneg]
        refine Simulated.pure ⟨rfl, rfl, rfl, ?_, hreg, hread⟩
        by_cases hlost : p = .pipe2 ∧ chunks.flatten ≠ []
        · refine Or.inr ⟨hlost.1, if_pos hlost, ?_⟩
          exact lost_cutShort hs hused hlast (hdata hlost.2) hlost.2 hroom hcap
        · exact Or.inl (if_neg hlost)
      | count hfits hne =>
        have hnonneg : ¬ ((chunks.flatten.length : ℤ) < 0) := by omega
        by_cases hzero : chunks.flatten.length = 0
        · have hnil : chunks = [] := no_chunks hne hzero
          subst hnil
          rw [received_nil c p hrb] at hres
          refine sim_step hanswers hres ?_
          rw [if_neg hnonneg, if_pos (by simp)]
          exact Simulated.pure ⟨rfl, rfl, rfl, Or.inl rfl, hreg, hread⟩
        · have hpos : 0 < chunks.flatten.length := Nat.pos_of_ne_zero hzero
          have hfill := hanswers.tail (.fill chunks hr hb hrb hpos (by omega))
          have hI' := path_inv hfill hI
          refine .step hres ?_
          rw [if_neg hnonneg, if_neg (by omega)]
          have hget : ((received w c p b rb chunks).setSys t).heap.bufs.get b =
              some { rb with data := Memory.write rb.data rb.last chunks.flatten } := by
            simp [received, setBlock]
          refine .step (setBuf_run hget _) (.moved hfill (received_last ..).symm ?_)
          have hget' : (filled (w.setSys t) c p b rb chunks).heap.bufs.get b = some { rb with
              data := Memory.write rb.data rb.last chunks.flatten
              last := rb.last+chunks.flatten.length } := by
            simp [filled, setBlock]
          refine .step (by rw [onHeap_run, buf_run hget']) ?_
          by_cases hfull : rb.last+chunks.flatten.length = rb.endPos
          · rw [decide_eq_true hfull] at hfill hI' ⊢
            rw [if_pos hfull.symm]
            refine sim_linkBuf hI' hr (Or.inr rfl) fun h1 b' rest rb' hlink => ?_
            have hcap' := path_capacity (hfill.trans hlink)
            have hnext : ((r.setPipe p (r.pipe p ++ [b'])).pipe p).getLast? = some b' := by simp
            refine (ih (path_inv hlink hI') (by simp) hnext (linked_get ..) hfd).mono
              fun ok u _ hu => hu.later hcap' hs.recvs ?_
            rw [hs.bytes]
            have hnew :
                (rewound rb' ((filled (w.setSys t) c p b rb chunks).setHeap h1).heap.bp).endPos-
                (rewound rb' ((filled (w.setSys t) c p b rb chunks).setHeap h1).heap.bp).last =
                capacity w.heap := hcap'
            rw [hnew, show rb.endPos-rb.last = chunks.flatten.length by omega]
            exact Nat.add_mod_right ..
          · rw [decide_eq_false hfull] at hfill hI' ⊢
            rw [if_neg (fun h => hfull h.symm)]
            refine (ih hI' hr hb hget' hfd).mono fun ok u _ hu =>
              hu.later (path_capacity hfill) hs.recvs ?_
            rw [hs.bytes]
            have hsum : chunks.flatten.length+(rb.endPos-(rb.last+chunks.flatten.length)) =
                rb.endPos-rb.last := by omega
            exact hsum ▸ Nat.ModEq.refl _

def room (w : World) (c : ConnId) (p : Pipe) : ℕ :=
  match (w.pipes c p).getLast? with
  | none => capacity w.heap
  | some b => ((w.heap.bufs.get b).map fun rb => rb.endPos-rb.last).getD 0

theorem room_empty (hr : w.conns.get c = some r) (hp : r.pipe p = []) :
    room w c p = capacity w.heap := by
  simp [room, pipes_of hr, hp]

theorem room_tail (hr : w.conns.get c = some r) (hb : (r.pipe p).getLast? = some b)
    (hrb : w.heap.bufs.get b = some rb) : room w c p = rb.endPos-rb.last := by
  simp [room, pipes_of hr, hb, hrb]

theorem sim_receive {β : Type} {f : Bool → Callback β} {post : β → Stage → Prop}
    (fdOf : XtpConn → ℤ) (hfdOf : ∀ r bs, fdOf (r.setPipe p bs) = fdOf r)
    (hI : Inv ⟨w, .idle, false, fs, is⟩) (hr : w.conns.get c = some r) (hp : Readable r p)
    (hfd : ∀ k, w.fds (fdOf r) = some k → k = ⟨c, source p⟩)
    (hf : ∀ ok t, Acts (some c) ⟨w, .idle, false, fs, is⟩ t →
      RecvDone ⟨w, .filling c p false, false, fs, is⟩ c p (room w c p) ok t →
      Sim (some c) t (f ok) post) :
    Sim (some c) ⟨w, .idle, false, fs, is⟩ (do
      let b ← tailBuf c p
      let ok ← recv2buf c p (fdOf (← conn c)) ((← get).sys.recvs.length+1) b
      f ok) post := by
  have hbegin : Acts (some c) ⟨w, .idle, false, fs, is⟩ ⟨w, .filling c p false, false, fs, is⟩ :=
    .single (.beginFill p hr hp)
  have hI' := path_inv hbegin hI
  refine .moved hbegin rfl ?_
  cases hlast : (r.pipe p).getLast? with
  | some b =>
    have htail : (tailBuf c p).run w = .ok b w := by
      unfold tailBuf
      rw [EStateM.run_bind, conn_run hr]
      simp only [hlast]
      rfl
    obtain ⟨rb,hrb,-⟩ := (hI.buffers.shape c p).each b
      (pipes_of hr p ▸ List.mem_of_mem_getLast? hlast)
    refine .step htail (.step (conn_run hr) (.step rfl ?_))
    refine Simulated.bind (sim_recv2buf _ hI' hr hlast hrb hfd) fun ok t ht hdone => ?_
    rw [← room_tail hr hlast hrb] at hdone
    exact hf ok t (hbegin.trans ht) hdone
  | none =>
    have hnil : r.pipe p = [] := List.getLast?_eq_none_iff.mp hlast
    have hrun : ∀ g : BufId → Callback β,
      (tailBuf c p >>= g).run w = (linkBuf c p >>= g).run w := by
      intro g
      unfold tailBuf
      simp only [EStateM.run_bind, conn_run hr, hlast]
    refine .congr (hrun _) (sim_linkBuf hI' hr (Or.inl hnil) fun h1 b rest rb hlink => ?_)
    have hcap := path_capacity hlink
    have hIl := path_inv hlink hI'
    have hr' : (linked (w.setHeap h1) c p r b rest rb).conns.get c =
        some (r.setPipe p (r.pipe p ++ [b])) := by simp
    refine .step (conn_run hr') (.step rfl ?_)
    have hfd' : ∀ k, (linked (w.setHeap h1) c p r b rest rb).fds
        (fdOf (r.setPipe p (r.pipe p ++ [b]))) = some k → k = ⟨c, source p⟩ := by
      rw [hfdOf]
      simpa using hfd
    refine Simulated.bind (sim_recv2buf _ hIl hr' (by simp) (linked_get ..) hfd')
      fun ok t ht hdone => hf ok t (hbegin.trans (hlink.trans ht)) ?_
    have hused : w.sys.recvs = [] ++ w.sys.recvs := rfl
    have hnew : (rewound rb h1.bp).endPos-(rewound rb h1.bp).last = capacity w.heap := hcap
    refine RecvDone.later hdone hcap hused ?_
    rw [room_empty hr hnil, List.flatMap_nil, List.length_nil, Nat.zero_add]
    exact hnew ▸ Nat.ModEq.refl _

structure SendDone (s : Stage) (c : ConnId) (p : Pipe) (b : BufId) (out : Drained) (t : Stage) :
    Prop where
  busy : t.busy = if out = .error then broken c p (target p) else .idle
  due : t.due = false
  failures : t.failures = s.failures
  incidents : t.incidents = s.incidents
  conns : t.w.conns = s.w.conns
  fds : t.w.fds = s.w.fds
  regular : Regular t.w c
  used : ∃ used, s.w.sys.sends = used ++ t.w.sys.sends ∧
    (out = .again → used.getLast? = some .eagain)
  done : out = .done → ∃ rb, t.w.heap.bufs.get b = some rb ∧ rb.pos = rb.last
  again : out = .again → ∃ rb, t.w.heap.bufs.get b = some rb ∧ rb.pos < rb.last
  failed : out = .error → ∃ a ∈ s.w.sys.sends, EndsSend a

theorem SendDone.later {w' : World} {used : List SendAnswer} {out : Drained}
    (h : SendDone ⟨w', .idle, false, fs, is⟩ c p b out t) (hconns : w'.conns = w.conns)
    (hfds : w'.fds = w.fds) (hused : w.sys.sends = used ++ w'.sys.sends) :
    SendDone ⟨w, .idle, false, fs, is⟩ c p b out t := by
  obtain ⟨used',hu,ha⟩ := h.used
  refine ⟨h.busy, h.due, h.failures, h.incidents, h.conns.trans hconns, h.fds.trans hfds,
    h.regular, ⟨used ++ used', ?_, ?_⟩, h.done, h.again, fun hout => ?_⟩
  · simp only [hused, List.append_assoc]
    rw [← hu]
  · intro hout
    rw [List.getLast?_append, ha hout]
    rfl
  · obtain ⟨a,hmem,hend⟩ := h.failed hout
    exact ⟨a, hused ▸ List.mem_append_right used hmem, hend⟩

theorem head_window (hI : Inv ⟨w, .idle, false, fs, is⟩) (hr : w.conns.get c = some r)
    (hb : (r.pipe p).head? = some b) (hrb : w.heap.bufs.get b = some rb) :
    rb.pos ≤ rb.last ∧ rb.last < 2147483648 := by
  have hshape := hI.buffers.shape c p
  rw [pipes_of hr] at hshape
  obtain ⟨rb',hrb',hp⟩ := hshape.each b (List.mem_of_mem_head? hb)
  cases hrb.symm.trans hrb'
  have hsmall : w.heap.bp.size < 2147483648 := hI.buffers.small
  have hend : rb.endPos = (w.heap.bp.size-1).toNat := hp.endAt
  have hlast := hp.lastEnd
  exact ⟨hp.posLast, by omega⟩

theorem no_counts {ks : List ℕ} (hpos : ∀ k ∈ ks, 0 < k) (hzero : ks.sum = 0) : ks = [] := by
  cases ks with
  | nil => rfl
  | cons k ks =>
    have hk := hpos k (List.mem_cons_self ..)
    rw [List.sum_cons] at hzero
    omega

theorem sendEnd_cases {nLen : ℕ} {ks : List ℕ} {used : List SendAnswer} {len : ℤ}
    (h : SendEnd nLen ks used len) (hpos : 0 < nLen) :
    (len < 0 ∧ ks.sum < nLen ∧ ∃ a ∈ used, EndsSend a) ∨ (len = ks.sum ∧ ks.sum ≤ nLen ∧
      (ks.sum = 0 → ks = [] ∧ used.getLast? = some .eagain)) := by
  cases h with
  | all h => exact Or.inr ⟨rfl, Nat.le_of_eq h, fun h0 => by omega⟩
  | again h hp hlast => exact Or.inr ⟨rfl, Nat.le_of_lt h, fun h0 => ⟨no_counts hp h0, hlast⟩⟩
  | failed hneg h last hused hlast =>
    exact Or.inl ⟨hneg, h, last, List.mem_of_mem_getLast? hused, hlast⟩

theorem sim_sendBuf (turns : ℕ) {w : World} {rb : XtpBuf} (hI : Inv ⟨w, .idle, false, fs, is⟩)
    (hr : w.conns.get c = some r) (hp : Writable r p) (hb : (r.pipe p).head? = some b)
    (hrb : w.heap.bufs.get b = some rb) (hfd : ∀ k, w.fds fd = some k → k = ⟨c, target p⟩) :
    Sim (some c) ⟨w, .idle, false, fs, is⟩ (sendBuf fd b turns)
      (SendDone ⟨w, .idle, false, fs, is⟩ c p b) := by
  induction turns generalizing w rb with
  | zero => exact sim_pending rfl .refl rfl rfl
  | succ turns ih =>
    obtain ⟨hle,hsmall⟩ := head_window hI hr hb hrb
    have hreg : Regular w c := inv_regular hI (by simp)
    unfold sendBuf
    refine .step (by rw [onHeap_run, buf_run hrb]) ?_
    by_cases heq : rb.pos = rb.last
    · rw [if_pos heq]
      exact Simulated.pure ⟨rfl, rfl, rfl, rfl, rfl, rfl, hreg, ⟨[], rfl, by simp⟩,
        fun _ => ⟨rb, hrb, heq⟩, by simp, by simp⟩
    rw [if_neg heq]
    have hsend := @xSendn_run w c p b rb fd (rb.last-rb.pos) hrb hfd (by omega)
    cases hres : (xSendn fd b rb.pos (rb.last-rb.pos)).run w with
    | error e w' =>
      rw [hres] at hsend
      obtain _ | ⟨ks,t,hks⟩ := hsend
      exact sim_pending_bind hres (.single (.leak ks hr hp hb hrb (by omega))) rfl rfl
    | ok len w' =>
      rw [hres] at hsend
      obtain ⟨rfl,hs,hend⟩ | _ := hsend
      rename_i ks used t
      have hanswers : Acts (some c) ⟨w, .idle, false, fs, is⟩ ⟨w.setSys t, .idle, false, fs, is⟩ :=
        .single (.answers t hs.shrinks)
      rcases sendEnd_cases hend (by omega) with ⟨hneg,hlt,a,ha,hends⟩ | ⟨rfl,hfits,hagain⟩
      · refine sim_step (hanswers.tail (.leak ks hr hp hb hrb (by omega))) hres ?_
        rw [if_pos hneg]
        exact Simulated.pure ⟨rfl, rfl, rfl, rfl, rfl, rfl, hreg, ⟨used, hs.sends, by simp⟩,
          by simp, by simp, fun _ => ⟨a, hs.sends ▸ List.mem_append_left _ ha, hends⟩⟩
      by_cases hzero : ks.sum = 0
      · obtain ⟨rfl,hlast⟩ := hagain hzero
        rw [delivered_nil] at hres
        refine sim_step hanswers hres ?_
        rw [if_neg (by simp), if_pos (by simp)]
        exact Simulated.pure ⟨rfl, rfl, rfl, rfl, rfl, rfl, hreg, ⟨used, hs.sends, fun _ => hlast⟩,
          by simp, fun _ => ⟨rb, hrb, by omega⟩, by simp⟩
      · have hd := hanswers.tail (.drain ks hr hp hb hrb (by omega))
        refine .step hres ?_
        rw [if_neg (by omega), if_neg (by omega)]
        have hget : ((delivered w c p rb ks).setSys t).heap.bufs.get b = some rb := by
          simpa using hrb
        refine .step (setBuf_run hget _) (.moved hd rfl ?_)
        have hget' : (drained (w.setSys t) c p b rb ks).heap.bufs.get b =
            some { rb with pos := rb.pos+ks.sum } := by simp [drained, setBlock]
        exact (ih (path_inv hd hI) hr hget' hfd).mono fun out u _ hu => hu.later rfl rfl hs.sends

theorem unlinkHead_run {busy : Busy} (hI : Inv ⟨w, busy, false, fs, is⟩)
    (hr : w.conns.get c = some r) (hb : (r.pipe p).head? = some b) :
    (unlinkHead c p b).run w = .ok () (unlinked w c p r b) := by
  have hshape := hI.buffers.shape c p
  rw [pipes_of hr] at hshape
  obtain ⟨rb,hrb,hp⟩ := hshape.each b (List.mem_of_mem_head? hb)
  have hfits : ¬ rb.size > w.heap.bp.size := Int.not_lt.mpr hp.fits
  have hfree : (xBufFree b).run w.heap = .ok () { w.heap with
      bp := { w.heap.bp with head := b::w.heap.bp.head, n := cInt (w.heap.bp.n+1) } } := by
    unfold xBufFree
    rw [EStateM.run_bind, buf_run hrb]
    simp only [hp.back, if_true, EStateM.run_bind, EStateM.run_get, if_neg hfits]
    rfl
  unfold unlinkHead
  rw [EStateM.run_bind, setConn_run hr]
  simp only [onHeap_run, World.putConn_frame, hfree]
  rfl

theorem sim_freePipe (buffers : ℕ) {w : World} {r : XtpConn}
    (hI : Inv ⟨w, .closing c, false, fs, is⟩) (hr : w.conns.get c = some r) :
    Sim (some c) ⟨w, .closing c, false, fs, is⟩ (freePipe c p buffers) fun _ t =>
      ∃ w', t = ⟨w', .closing c, false, fs, is⟩ ∧
        w'.conns.get c = some (r.setPipe p []) ∧ w'.loop = w.loop := by
  induction buffers generalizing w r with
  | zero => exact sim_pending rfl .refl rfl rfl
  | succ buffers ih =>
    unfold freePipe
    refine .step (conn_run hr) ?_
    cases hpipe : r.pipe p with
    | nil =>
      have hsame : r.setPipe p [] = r := by
        rw [← hpipe]
        cases p <;> rfl
      exact Simulated.pure ⟨w, rfl, by rw [hsame]; exact hr, rfl⟩
    | cons b rest =>
      have hb : (r.pipe p).head? = some b := by rw [hpipe]; rfl
      have hmem : b ∈ w.pipes c p := mem_pipes hr (List.mem_of_mem_head? hb)
      obtain ⟨rb,hrb,-⟩ := (hI.buffers.shape c p).each b hmem
      have hunlink : Acts (some c) ⟨w, .closing c, false, fs, is⟩
          ⟨unlinked w c p r b, .closing c, false, fs, is⟩ :=
        .single (.unlink hr hb hrb (Or.inr rfl))
      refine sim_step hunlink (unlinkHead_run hI hr hb) ?_
      have hr' : (unlinked w c p r b).conns.get c = some (r.setPipe p (r.pipe p).tail) := by simp
      refine (ih (path_inv hunlink hI) hr').mono fun _ t _ ht => ?_
      obtain ⟨w',rfl,hget,hloop⟩ := ht
      have hset : (r.setPipe p (r.pipe p).tail).setPipe p [] = r.setPipe p [] := by cases p <;> rfl
      exact ⟨w', rfl, hset ▸ hget, hloop⟩

end filling

end TcpFunnel.PipeSimulation
