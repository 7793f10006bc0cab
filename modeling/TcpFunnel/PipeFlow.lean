import TcpFunnel.StageInvariant

/-!
# What an action does to a pipe

The bytes that have arrived for a pipe and that have departed from it are
read off the history of transfers, the bytes it still holds off its buffers.
An action leaves all three alone for every pipe but at most one, for which it
does one of the things listed in `Flow`.
-/

set_option autoImplicit false

namespace TcpFunnel.PipeFlow
open TcpFunnel.BufferPool TcpFunnel.Connection TcpFunnel.Actions TcpFunnel.Invariants
open TcpFunnel.RecordInvariant TcpFunnel.BufferInvariant TcpFunnel.StageInvariant

def moved (io : List Transfer) (k : Sock) (kind : IoKind) : List UInt8 :=
  (io.filter fun t => t.sock = k ∧ t.kind = kind).flatMap (·.bytes)

def arrived (w : World) (c : ConnId) (p : Pipe) : List UInt8 := moved w.io ⟨c, source p⟩ .recv
def departed (w : World) (c : ConnId) (p : Pipe) : List UInt8 := moved w.io ⟨c, target p⟩ .send

theorem moved_append (xs ys : List Transfer) (k : Sock) (kind : IoKind) :
    moved (xs ++ ys) k kind = moved xs k kind ++ moved ys k kind := by
  simp [moved]

theorem moved_receipts (j k : Sock) (chunks : List (List UInt8)) :
    moved (receipts j chunks) k .recv = if j = k then chunks.flatten else [] := by
  induction chunks with
  | nil => simp [moved, receipts]
  | cons x xs ih =>
    rw [show receipts j (x::xs) = [⟨j, .recv, x⟩] ++ receipts j xs from rfl, moved_append, ih]
    by_cases h : j = k <;> simp [moved, h]

theorem moved_receipts_send (j k : Sock) (chunks : List (List UInt8)) :
    moved (receipts j chunks) k .send = [] := by
  simp [moved, receipts]

theorem moved_sends (j k : Sock) (data : ℕ → UInt8) (off : ℕ) (ks : List ℕ) :
    moved (sends j data off ks) k .send = if j = k then Memory.read data off ks.sum else [] := by
  induction ks generalizing off with
  | nil => simp [moved, sends]
  | cons n ns ih =>
    rw [show sends j data off (n::ns) = [⟨j, .send, Memory.read data off n⟩] ++
      sends j data (off+n) ns from rfl, moved_append, ih, List.sum_cons, Memory.read_add]
    by_cases h : j = k <;> simp [moved, h]

theorem moved_sends_recv (j k : Sock) (data : ℕ → UInt8) (off : ℕ) (ks : List ℕ) :
    moved (sends j data off ks) k .recv = [] := by
  induction ks generalizing off with
  | nil => rfl
  | cons n ns ih =>
    rw [show sends j data off (n::ns) = [⟨j, .send, Memory.read data off n⟩] ++
      sends j data (off+n) ns from rfl, moved_append, ih]
    simp [moved]

theorem source_sock (c d : ConnId) (p q : Pipe) :
    ((⟨c, source p⟩ : Sock) = ⟨d, source q⟩) ↔ d = c ∧ q = p := by
  cases p <;> cases q <;> simp [source, eq_comm]

theorem target_sock (c d : ConnId) (p q : Pipe) :
    ((⟨c, target p⟩ : Sock) = ⟨d, target q⟩) ↔ d = c ∧ q = p := by
  cases p <;> cases q <;> simp [target, eq_comm]

section windows

variable {s t : Stage} {c : ConnId} {p : Pipe} {r : XtpConn} {b : BufId} {rb : XtpBuf}

theorem window_of {h : Heap} (hrb : h.bufs.get b = some rb) :
    window h b = Memory.read rb.data rb.pos (rb.last-rb.pos) := by
  simp [window, hrb]

theorem window_congr {h h' : Heap} (heq : h'.bufs.get b = h.bufs.get b) :
    window h' b = window h b := by
  simp [window, heq]

theorem unsent_same {w w' : World} (hp : w'.pipes c p = w.pipes c p)
    (hw : ∀ b ∈ w.pipes c p, window w'.heap b = window w.heap b) :
    unsent w' c p = unsent w c p := by
  unfold unsent
  rw [hp]
  exact List.flatMap_congr hw

theorem unsent_other {w w' : World} {d : ConnId} {q : Pipe} {rb' : XtpBuf}
    (hB : Buffers s) (hs : s.w = w) (hb : b ∈ w.pipes c p) (hheap : w'.heap = setBlock w.heap b rb')
    (hconns : w'.conns = w.conns) (hne : ¬ (d = c ∧ q = p)) : unsent w' d q = unsent w d q := by
  subst hs
  refine unsent_same (pipes_conns hconns d q) fun a ha => window_congr ?_
  have hab : a ≠ b := by
    rintro rfl
    exact hne (hB.disjoint d q c p a ha hb)
  rw [hheap]
  simp [setBlock, hab]

theorem pipe_snoc (hr : s.w.conns.get c = some r) (hb : (r.pipe p).getLast? = some b) :
    s.w.pipes c p = (r.pipe p).dropLast ++ [b] := by
  rw [pipes_of hr]
  exact (List.dropLast_append_getLast? b hb).symm

theorem pipe_cons (hr : s.w.conns.get c = some r) (hb : (r.pipe p).head? = some b) :
    s.w.pipes c p = b :: (r.pipe p).tail := by
  rw [pipes_of hr]
  exact (List.cons_head?_tail (Option.mem_def.mpr hb)).symm

theorem unsent_last (w' : World) {rb' : XtpBuf} (hB : Buffers s)
    (hr : s.w.conns.get c = some r) (hb : (r.pipe p).getLast? = some b)
    (hrb : s.w.heap.bufs.get b = some rb) (hheap : w'.heap = setBlock s.w.heap b rb')
    (hconns : w'.conns = s.w.conns) {front : List UInt8}
    (hfront : front = (r.pipe p).dropLast.flatMap (window s.w.heap)) :
    unsent s.w c p = front ++ Memory.read rb.data rb.pos (rb.last-rb.pos) ∧
    unsent w' c p = front ++ Memory.read rb'.data rb'.pos (rb'.last-rb'.pos) := by
  have hpipe := pipe_snoc hr hb
  have hnot : b ∉ (r.pipe p).dropLast := by
    have hn := hB.nodup c p
    rw [pipes_of hr] at hn
    exact not_mem_dropLast hn hb
  subst hfront
  unfold unsent
  rw [pipes_conns hconns, hpipe, List.flatMap_append, List.flatMap_append]
  constructor
  · simp [window_of hrb]
  · have hget : w'.heap.bufs.get b = some rb' := by rw [hheap]; simp [setBlock]
    have hsame : (r.pipe p).dropLast.flatMap (window w'.heap) =
        (r.pipe p).dropLast.flatMap (window s.w.heap) := by
      refine List.flatMap_congr fun a ha => window_congr ?_
      have hab : a ≠ b := by
        rintro rfl
        exact hnot ha
      rw [hheap]
      simp [setBlock, hab]
    rw [hsame]
    simp [window_of hget]

theorem unsent_head (w' : World) {rb' : XtpBuf} (hB : Buffers s)
    (hr : s.w.conns.get c = some r) (hb : (r.pipe p).head? = some b)
    (hrb : s.w.heap.bufs.get b = some rb) (hheap : w'.heap = setBlock s.w.heap b rb')
    (hconns : w'.conns = s.w.conns) {back : List UInt8}
    (hback : back = (r.pipe p).tail.flatMap (window s.w.heap)) :
    unsent s.w c p = Memory.read rb.data rb.pos (rb.last-rb.pos) ++ back ∧
    unsent w' c p = Memory.read rb'.data rb'.pos (rb'.last-rb'.pos) ++ back := by
  have hpipe := pipe_cons hr hb
  have hnot : b ∉ (r.pipe p).tail := by
    have hn := hB.nodup c p
    rw [pipes_of hr] at hn
    exact not_mem_tail hn hb
  subst hback
  unfold unsent
  rw [pipes_conns hconns, hpipe, List.flatMap_cons, List.flatMap_cons]
  constructor
  · rw [window_of hrb]
  · have hget : w'.heap.bufs.get b = some rb' := by rw [hheap]; simp [setBlock]
    have hsame : (r.pipe p).tail.flatMap (window w'.heap) =
        (r.pipe p).tail.flatMap (window s.w.heap) := by
      refine List.flatMap_congr fun a ha => window_congr ?_
      have hab : a ≠ b := by
        rintro rfl
        exact hnot ha
      rw [hheap]
      simp [setBlock, hab]
    rw [hsame, window_of hget]

theorem unsent_linked {rest : List BufId} (hB : Buffers s) (hr : s.w.conns.get c = some r)
    (hb : s.w.heap.bp.head = b::rest) (d : ConnId) (q : Pipe) :
    unsent (linked s.w c p r b rest rb) d q = unsent s.w d q := by
  have hfree : ∀ e u, b ∉ s.w.pipes e u := fun e u hm =>
    hB.apart e u b hm (hb ▸ List.mem_cons_self ..)
  have hold : ∀ a, a ≠ b → window (linked s.w c p r b rest rb).heap a = window s.w.heap a := by
    intro a ha
    exact window_congr (by simp [linked, ha])
  have hnew : window (linked s.w c p r b rest rb).heap b = [] := by
    have hget : (linked s.w c p r b rest rb).heap.bufs.get b = some (rewound rb s.w.heap.bp) := by
      simp [linked]
    rw [window_of hget]
    simp [rewound]
  have hpipe := pipes_put (linked_conns s.w c r p b rest rb) d q
  by_cases hd : d = c
  · subst hd
    rw [if_pos rfl, XtpConn.setPipe_pipe] at hpipe
    by_cases hq : q = p
    · subst hq
      rw [if_pos rfl] at hpipe
      unfold unsent
      rw [hpipe, pipes_of hr, List.flatMap_append]
      have hsame : (r.pipe q).flatMap (window (linked s.w d q r b rest rb).heap) =
          (r.pipe q).flatMap (window s.w.heap) := by
        refine List.flatMap_congr fun a ha => hold a ?_
        rintro rfl
        exact hfree d q (mem_pipes hr ha)
      simp [hsame, hnew]
    · rw [if_neg hq, ← pipes_of hr q] at hpipe
      refine unsent_same hpipe fun a ha => hold a ?_
      rintro rfl
      exact hfree d q ha
  · rw [if_neg hd] at hpipe
    refine unsent_same hpipe fun a ha => hold a ?_
    rintro rfl
    exact hfree d q ha

theorem unsent_unlinked (hr : s.w.conns.get c = some r) (hb : (r.pipe p).head? = some b)
    (d : ConnId) (q : Pipe) :
    unsent s.w d q = (if d = c ∧ q = p then window s.w.heap b else []) ++
      unsent (unlinked s.w c p r b) d q := by
  have hpipe := pipes_put (unlinked_conns s.w c r p b) d q
  have hold : ∀ a, window (unlinked s.w c p r b).heap a = window s.w.heap a := fun a =>
    window_congr (by simp [unlinked])
  by_cases hd : d = c
  · subst hd
    rw [if_pos rfl, XtpConn.setPipe_pipe] at hpipe
    by_cases hq : q = p
    · subst hq
      rw [if_pos rfl] at hpipe
      rw [if_pos ⟨rfl, rfl⟩]
      unfold unsent
      rw [hpipe, pipe_cons hr hb, List.flatMap_cons]
      congr 1
    · rw [if_neg hq, ← pipes_of hr q] at hpipe
      rw [if_neg (fun h => hq h.2), List.nil_append]
      exact (unsent_same hpipe fun a _ => hold a).symm
  · rw [if_neg hd] at hpipe
    rw [if_neg (fun h => hd h.1), List.nil_append]
    exact (unsent_same hpipe fun a _ => hold a).symm

end windows

/-- What an action may do to one pipe. -/
inductive Flow (c : ConnId) (p : Pipe) (s t : Stage) : Prop
  | quiet (hin : arrived t.w c p = arrived s.w c p) (hout : departed t.w c p = departed s.w c p)
      (hold : unsent t.w c p = unsent s.w c p)
  | filled (xs : List UInt8) (hbusy : s.busy = .filling c p false)
      (hnext : ∃ full, t.busy = .filling c p full)
      (hin : arrived t.w c p = arrived s.w c p ++ xs) (hout : departed t.w c p = departed s.w c p)
      (hold : unsent t.w c p = unsent s.w c p ++ xs)
  | lost (xs : List UInt8) (hbusy : s.busy = .filling c p false)
      (hnext : t.busy = broken c p (source p)) (hin : arrived t.w c p = arrived s.w c p ++ xs)
      (hout : departed t.w c p = departed s.w c p) (hold : unsent t.w c p = unsent s.w c p)
      (hlost : p = .pipe2 → xs ≠ [] → .bytesLost c ∈ t.incidents)
  | drained (xs : List UInt8) (r : XtpConn) (hr : s.w.conns.get c = some r) (hp : Writable r p)
      (hbusy : s.busy = .idle) (hnext : t.busy = .idle) (hin : arrived t.w c p = arrived s.w c p)
      (hout : departed t.w c p = departed s.w c p ++ xs)
      (hold : unsent s.w c p = xs ++ unsent t.w c p)
  | leaked (xs ys : List UInt8) (r : XtpConn) (hr : s.w.conns.get c = some r) (hp : Writable r p)
      (hbusy : s.busy = .idle) (hnext : t.busy = broken c p (target p))
      (hin : arrived t.w c p = arrived s.w c p)
      (hout : departed t.w c p = departed s.w c p ++ xs) (hrest : unsent s.w c p = xs ++ ys)
      (hold : unsent t.w c p = unsent s.w c p)
  | dropped (xs : List UInt8) (hbusy : s.busy = .closing c) (hnext : t.busy = .closing c)
      (hin : arrived t.w c p = arrived s.w c p) (hout : departed t.w c p = departed s.w c p)
      (hold : unsent s.w c p = xs ++ unsent t.w c p)

section flows

variable {o : Option ConnId} {s t : Stage} {c : ConnId} {p : Pipe}

theorem quiet_flow (hio : t.w.io = s.w.io) (hpipe : t.w.pipes c p = s.w.pipes c p)
    (hw : ∀ b ∈ s.w.pipes c p, window t.w.heap b = window s.w.heap b) : Flow c p s t :=
  .quiet (by unfold arrived; rw [hio]) (by unfold departed; rw [hio]) (unsent_same hpipe hw)

theorem quiet_flow_put {d : ConnId} {r r' : XtpConn} (hr : s.w.conns.get d = some r)
    (hput : t.w.conns = s.w.conns.set d r') (hp : ∀ q, r'.pipe q = r.pipe q)
    (hio : t.w.io = s.w.io) (hheap : t.w.heap = s.w.heap) : Flow c p s t :=
  quiet_flow hio (pipes_same hr hput hp c p) (fun b _ => by rw [hheap])

theorem arrived_receipts (s : Stage) (w' : World) (c : ConnId) (p : Pipe)
    {d : ConnId} {q : Pipe} {chunks : List (List UInt8)}
    (hio : w'.io = s.w.io ++ receipts ⟨d, source q⟩ chunks) :
    arrived w' c p = arrived s.w c p ++ (if c = d ∧ p = q then chunks.flatten else []) ∧
    departed w' c p = departed s.w c p := by
  unfold arrived departed
  rw [hio, moved_append, moved_append, moved_receipts, moved_receipts_send, List.append_nil]
  simp only [source_sock, and_true]

theorem departed_sends (s : Stage) (w' : World) (c : ConnId) (p : Pipe)
    {d : ConnId} {q : Pipe} {data : ℕ → UInt8} {off : ℕ}
    {ks : List ℕ} (hio : w'.io = s.w.io ++ sends ⟨d, target q⟩ data off ks) :
    arrived w' c p = arrived s.w c p ∧ departed w' c p =
      departed s.w c p ++ (if c = d ∧ p = q then Memory.read data off ks.sum else []) := by
  unfold arrived departed
  rw [hio, moved_append, moved_append, moved_sends, moved_sends_recv, List.append_nil]
  simp only [target_sock, true_and]

section transfers

variable {w : World} {fs : List Failure} {is : List Incident} {d : ConnId} {q : Pipe}
variable {r : XtpConn} {b : BufId} {rb : XtpBuf}

theorem fill_flow {chunks : List (List UInt8)} (hI : Inv ⟨w, .filling d q false, false, fs, is⟩)
    (hr : w.conns.get d = some r) (hb : (r.pipe q).getLast? = some b)
    (hrb : w.heap.bufs.get b = some rb) (full : Bool) :
    Flow c p ⟨w, .filling d q false, false, fs, is⟩
      ⟨filled w d q b rb chunks, .filling d q full, false, fs, is⟩ := by
  obtain ⟨hin,hout⟩ := arrived_receipts ⟨w, .filling d q false, false, fs, is⟩
    (filled w d q b rb chunks) c p rfl
  have hmem : b ∈ w.pipes d q := mem_pipes hr (List.mem_of_mem_getLast? hb)
  by_cases hcp : c = d ∧ p = q
  · obtain ⟨rfl,rfl⟩ := hcp
    rw [if_pos ⟨rfl, rfl⟩] at hin
    obtain ⟨h1,h2⟩ := unsent_last (filled w c p b rb chunks) hI.buffers hr hb hrb rfl rfl rfl
    have hle : rb.pos ≤ rb.last := by
      obtain ⟨rb',hrb',hp⟩ := (hI.buffers.shape c p).each b hmem
      cases hrb.symm.trans hrb'
      exact hp.posLast
    have hgrow := Memory.read_extend rb.data rb.pos (rb.last-rb.pos) chunks.flatten
    rw [show rb.pos+(rb.last-rb.pos) = rb.last by omega,
      show rb.last-rb.pos+chunks.flatten.length = rb.last+chunks.flatten.length-rb.pos by omega]
      at hgrow
    refine .filled chunks.flatten rfl ⟨full, rfl⟩ hin hout ?_
    rw [h2, h1, hgrow, List.append_assoc]
  · rw [if_neg hcp, List.append_nil] at hin
    exact .quiet hin hout (unsent_other hI.buffers rfl hmem rfl rfl hcp)

theorem lose_flow {chunks : List (List UInt8)} (hI : Inv ⟨w, .filling d q false, false, fs, is⟩)
    (hr : w.conns.get d = some r) (hb : (r.pipe q).getLast? = some b)
    (hrb : w.heap.bufs.get b = some rb) :
    Flow c p ⟨w, .filling d q false, false, fs, is⟩
      ⟨received w d q b rb chunks, broken d q (source q), false, fs,
        if q = .pipe2 ∧ chunks.flatten ≠ [] then is ++ [.bytesLost d] else is⟩ := by
  obtain ⟨hin,hout⟩ := arrived_receipts ⟨w, .filling d q false, false, fs, is⟩
    (received w d q b rb chunks) c p rfl
  have hmem : b ∈ w.pipes d q := mem_pipes hr (List.mem_of_mem_getLast? hb)
  by_cases hcp : c = d ∧ p = q
  · obtain ⟨rfl,rfl⟩ := hcp
    rw [if_pos ⟨rfl, rfl⟩] at hin
    obtain ⟨h1,h2⟩ := unsent_last (received w c p b rb chunks) hI.buffers hr hb hrb rfl rfl rfl
    have hle : rb.pos ≤ rb.last := by
      obtain ⟨rb',hrb',hp⟩ := (hI.buffers.shape c p).each b hmem
      cases hrb.symm.trans hrb'
      exact hp.posLast
    refine .lost chunks.flatten rfl rfl hin hout ?_ fun hp hne => ?_
    · have hin : rb.pos + (rb.last - rb.pos) ≤ rb.last := by omega
      rw [h2, h1, Memory.read_write_before _ _ _ _ _ hin]
    · rw [if_pos ⟨hp, hne⟩]
      exact List.mem_append_right _ (List.mem_singleton_self _)
  · rw [if_neg hcp, List.append_nil] at hin
    exact .quiet hin hout (unsent_other hI.buffers rfl hmem rfl rfl hcp)

theorem drain_flow {ks : List ℕ} (hI : Inv ⟨w, .idle, false, fs, is⟩)
    (hr : w.conns.get d = some r) (hp : Writable r q) (hb : (r.pipe q).head? = some b)
    (hrb : w.heap.bufs.get b = some rb) (hks : rb.pos+ks.sum ≤ rb.last) :
    Flow c p ⟨w, .idle, false, fs, is⟩ ⟨drained w d q b rb ks, .idle, false, fs, is⟩ := by
  obtain ⟨hin,hout⟩ := departed_sends ⟨w, .idle, false, fs, is⟩ (drained w d q b rb ks) c p rfl
  have hmem : b ∈ w.pipes d q := mem_pipes hr (List.mem_of_mem_head? hb)
  by_cases hcp : c = d ∧ p = q
  · obtain ⟨rfl,rfl⟩ := hcp
    rw [if_pos ⟨rfl, rfl⟩] at hout
    obtain ⟨h1,h2⟩ := unsent_head (drained w c p b rb ks) hI.buffers hr hb hrb rfl rfl rfl
    have hsplit := Memory.read_split rb.data rb.pos ks.sum (rb.last-rb.pos) (by omega)
    rw [Nat.sub_sub] at hsplit
    refine .drained _ r hr hp rfl rfl hin hout ?_
    rw [h2, h1, hsplit, List.append_assoc]
  · rw [if_neg hcp, List.append_nil] at hout
    exact .quiet hin hout (unsent_other hI.buffers rfl hmem rfl rfl hcp)

theorem leak_flow {ks : List ℕ} (hr : w.conns.get d = some r) (hp : Writable r q)
    (hb : (r.pipe q).head? = some b) (hrb : w.heap.bufs.get b = some rb)
    (hks : rb.pos+ks.sum ≤ rb.last) :
    Flow c p ⟨w, .idle, false, fs, is⟩
      ⟨delivered w d q rb ks, broken d q (target q), false, fs, is⟩ := by
  obtain ⟨hin,hout⟩ := departed_sends ⟨w, .idle, false, fs, is⟩ (delivered w d q rb ks) c p rfl
  by_cases hcp : c = d ∧ p = q
  · obtain ⟨rfl,rfl⟩ := hcp
    rw [if_pos ⟨rfl, rfl⟩] at hout
    have hpipe := pipe_cons (s := ⟨w, .idle, false, fs, is⟩) hr hb
    have hsplit := Memory.read_split rb.data rb.pos ks.sum (rb.last-rb.pos) (by omega)
    refine .leaked (Memory.read rb.data rb.pos ks.sum)
      (Memory.read rb.data (rb.pos+ks.sum) (rb.last-rb.pos-ks.sum) ++
        (r.pipe p).tail.flatMap (window w.heap)) r hr hp rfl rfl hin hout ?_ rfl
    unfold unsent
    rw [hpipe, List.flatMap_cons, ← List.append_assoc, ← hsplit]
    simp [window_of hrb]
  · rw [if_neg hcp, List.append_nil] at hout
    exact .quiet hin hout rfl

theorem unlink_flow {busy : Busy} (hI : Inv ⟨w, busy, false, fs, is⟩)
    (hr : w.conns.get d = some r) (hb : (r.pipe q).head? = some b)
    (hrb : w.heap.bufs.get b = some rb)
    (hbusy : (busy = .idle ∧ rb.pos = rb.endPos) ∨ busy = .closing d) :
    Flow c p ⟨w, busy, false, fs, is⟩ ⟨unlinked w d q r b, busy, false, fs, is⟩ := by
  have hold := unsent_unlinked (s := ⟨w, busy, false, fs, is⟩) hr hb c p
  have hio : (unlinked w d q r b).io = w.io := by simp
  have hin : arrived (unlinked w d q r b) c p = arrived w c p := by
    unfold arrived
    rw [hio]
  have hout : departed (unlinked w d q r b) c p = departed w c p := by
    unfold departed
    rw [hio]
  by_cases hcp : c = d ∧ p = q
  · obtain ⟨rfl,rfl⟩ := hcp
    rw [if_pos ⟨rfl, rfl⟩] at hold
    rcases hbusy with ⟨-,hend⟩ | hclose
    · have hmem : b ∈ w.pipes c p := mem_pipes hr (List.mem_of_mem_head? hb)
      obtain ⟨rb',hrb',hp⟩ := (hI.buffers.shape c p).each b hmem
      cases hrb.symm.trans hrb'
      have hempty : rb.last-rb.pos = 0 := by
        have hle := hp.lastEnd
        omega
      rw [window_of hrb, hempty, Memory.read_zero, List.nil_append] at hold
      exact .quiet hin hout hold.symm
    · exact .dropped _ hclose hclose hin hout hold
  · rw [if_neg hcp, List.nil_append] at hold
    exact .quiet hin hout hold.symm

end transfers

theorem act_flow (h : Act o s t) (hI : Inv s) (c : ConnId) (p : Pipe) : Flow c p s t := by
  cases h with
  | answers | mallocs | countMax | beginFill | answered | restClient | restUpstream | pass | doom
  | settle | stopTimer | stopUpcTimer => exact quiet_flow rfl rfl (fun _ _ => rfl)
  | requested => split <;> exact quiet_flow rfl rfl (fun _ _ => rfl)
  | addBlock =>
    refine quiet_flow rfl rfl fun b hb => window_congr ?_
    obtain ⟨rb,hrb,-⟩ := (hI.buffers.shape c p).each b hb
    have hlt := hI.buffers.wellFormed.lt hrb
    simp [pushBlock, Nat.ne_of_lt hlt]
  | @link w fs is d q full r b rest rb hr hb hrb hp =>
    exact .quiet (by simp [arrived]) (by simp [departed]) (unsent_linked hI.buffers hr hb c p)
  | fill chunks hr hb hrb hpos hroom => exact fill_flow hI hr hb hrb _
  | lose chunks hr hb hrb => exact lose_flow hI hr hb hrb
  | drain ks hr hp hb hrb hks => exact drain_flow hI hr hp hb hrb hks
  | leak ks hr hp hb hrb hks => exact leak_flow hr hp hb hrb hks
  | unlink hr hb hrb hbusy => exact unlink_flow hI hr hb hrb hbusy
  | enqueue hr => exact quiet_flow_put hr rfl (fun q => by cases q <;> rfl) rfl rfl
  | timeOut hr => exact quiet_flow_put hr rfl (fun q => by cases q <;> rfl) rfl rfl
  | noSocket leaked hs hi hr =>
    exact quiet_flow_put hr (abandoned_conns ..) (fun q => by cases q <;> rfl) (by simp) (by simp)
  | promote hs hi hr =>
    exact quiet_flow_put hr (promoted_conns ..) (fun q => by cases q <;> rfl) (by simp) (by simp)
  | refuse hs hi hr =>
    exact quiet_flow_put hr (closedUpstream_conns ..) (fun q => by cases q <;> rfl) (by simp)
      (by simp)
  | connect timeout hr =>
    exact quiet_flow_put hr (connected_conns ..) (fun q => by cases q <;> rfl) (by simp) (by simp)
  | closeUpstream hr =>
    exact quiet_flow_put hr (closedUpstream_conns ..) (fun q => by cases q <;> rfl) (by simp)
      (by simp)
  | closeClient hr =>
    exact quiet_flow_put hr (closedClient_conns ..) (fun q => by cases q <;> rfl) (by simp)
      (by simp)
  | @free w fs is d r hr hs hup h1 h2 =>
    refine quiet_flow rfl ?_ (fun _ _ => rfl)
    by_cases hd : c = d
    · subst hd
      rw [pipes_of hr]
      cases p <;> simp [World.pipes, XtpConn.pipe, h1, h2]
    · simp [World.pipes, hd]
  | @welcome w fs is fd =>
    refine quiet_flow (by simp) ?_ (fun _ _ => by simp)
    by_cases hd : c = w.conns.next
    · subst hd
      have hnone : w.conns.get w.conns.next = none := hI.records.wellFormed _ (Nat.le_refl _)
      cases p <;> simp [World.pipes, hnone, Access.newConn, XtpConn.pipe]
    · simp [World.pipes, hd]
  | turnAway => exact quiet_flow (by simp) (pipes_conns (by simp) c p) (fun _ _ => by simp)

end flows

def HoldsUnsent (w : World) (c : ConnId) (p : Pipe) : Prop :=
  ∃ b ∈ w.pipes c p, ∃ rb, w.heap.bufs.get b = some rb ∧ rb.pos ≠ rb.last

theorem holdsUnsent_iff {s : Stage} (hB : Buffers s) (c : ConnId) (p : Pipe) :
    HoldsUnsent s.w c p ↔ unsent s.w c p ≠ [] := by
  have hwindow : ∀ b ∈ s.w.pipes c p, window s.w.heap b ≠ [] ↔
      ∃ rb, s.w.heap.bufs.get b = some rb ∧ rb.pos ≠ rb.last := by
    intro b hb
    obtain ⟨rb,hrb,hp⟩ := (hB.shape c p).each b hb
    have hle := hp.posLast
    rw [window_of hrb, ← List.length_pos_iff, Memory.read_length]
    constructor
    · exact fun h => ⟨rb, hrb, by omega⟩
    · rintro ⟨rb',hrb',hne⟩
      cases hrb.symm.trans hrb'
      omega
  unfold HoldsUnsent unsent
  simp only [ne_eq, List.flatMap_eq_nil_iff, not_forall]
  constructor
  · rintro ⟨b,hb,h⟩
    exact ⟨b, hb, (hwindow b hb).mpr h⟩
  · rintro ⟨b,hb,h⟩
    exact ⟨b, hb, (hwindow b hb).mp h⟩

end TcpFunnel.PipeFlow
