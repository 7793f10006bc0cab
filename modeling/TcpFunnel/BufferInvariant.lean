import TcpFunnel.RecordInvariant

/-!
# The buffers under every action

A buffer is on the free list or in one pipe of one connection. Filling,
draining, extending and shortening a pipe keep its shape, and no action
touches the buffers of two pipes.
-/

set_option autoImplicit false

namespace TcpFunnel.BufferInvariant
open TcpFunnel.BufferPool TcpFunnel.Connection TcpFunnel.Actions TcpFunnel.Invariants
open TcpFunnel.CInt

section shapes

variable {h h' : Heap} {bs : List BufId} {full full' : Bool} {b : BufId} {rb : XtpBuf}

theorem shape_nil : Shape h full [] :=
  ⟨by simp, by simp, by simp, by simp⟩

theorem pipeBuf_congr {bp bp' : XtpBufPool} {r : XtpBuf} (hr : PipeBuf bp r)
    (hoff : bp'.offset = bp.offset) (hsize : bp'.size = bp.size) : PipeBuf bp' r := by
  obtain ⟨⟨h1,h2⟩,h3,h4,h5,h6,h7⟩ := hr
  exact ⟨⟨h1, hsize ▸ h2⟩, hoff ▸ h3, hsize ▸ h4, h5, h6, h7⟩

/-- The shape of a pipe depends on its own buffers only. -/
theorem shape_congr (hs : Shape h full bs) (hbufs : ∀ b ∈ bs, h'.bufs.get b = h.bufs.get b)
    (hoff : h'.bp.offset = h.bp.offset) (hsize : h'.bp.size = h.bp.size) : Shape h' full bs where
  each := by
    intro b hb
    obtain ⟨r,hr,hp⟩ := hs.each b hb
    exact ⟨r, (hbufs b hb).trans hr, pipeBuf_congr hp hoff hsize⟩
  front := by
    intro b hb r hr
    rw [hbufs b (List.dropLast_subset bs hb)] at hr
    exact hs.front b hb r hr
  tail := by
    intro b hb r hr
    rw [hbufs b (List.mem_of_mem_getLast? hb)] at hr
    exact hs.tail b hb r hr
  unread := by
    intro b hb r hr
    rw [hbufs b (List.mem_of_mem_tail hb)] at hr
    exact hs.unread b hb r hr

/-- A change of one buffer's record that keeps what the shape asks of it. -/
theorem shape_set {rb' : XtpBuf} (hs : Shape h full bs) (hb : b ∈ bs)
    (hrb : h.bufs.get b = some rb) (hbufs : h'.bufs = h.bufs.set b rb')
    (hoff : h'.bp.offset = h.bp.offset) (hsize : h'.bp.size = h.bp.size)
    (heach : PipeBuf h.bp rb → PipeBuf h.bp rb')
    (hfront : b ∈ bs.dropLast → rb.last = rb.endPos → rb'.last = rb'.endPos)
    (htail : ∀ b', bs.getLast? = some b' → ∀ r, h'.bufs.get b' = some r →
      if full' then r.last = r.endPos else r.last < r.endPos)
    (hunread : b ∈ bs.tail → rb.pos = rb.start → rb'.pos = rb'.start) : Shape h' full' bs where
  each := by
    intro a ha
    obtain ⟨r,hr,hp⟩ := hs.each a ha
    rw [hbufs, Store.set_get]
    by_cases hab : a = b
    · subst hab
      rw [hrb] at hr
      cases hr
      exact ⟨rb', if_pos rfl, pipeBuf_congr (heach hp) hoff hsize⟩
    · exact ⟨r, by rw [if_neg hab, hr], pipeBuf_congr hp hoff hsize⟩
  front := by
    intro a ha r hr
    rw [hbufs, Store.set_some] at hr
    rcases hr with ⟨rfl,rfl⟩ | ⟨-,hr⟩
    · exact hfront ha (hs.front a ha rb hrb)
    · exact hs.front a ha r hr
  tail := htail
  unread := by
    intro a ha r hr
    rw [hbufs, Store.set_some] at hr
    rcases hr with ⟨rfl,rfl⟩ | ⟨-,hr⟩
    · exact hunread ha (hs.unread a ha rb hrb)
    · exact hs.unread a ha r hr

theorem not_mem_dropLast {a : BufId} (hn : bs.Nodup) (ha : bs.getLast? = some a) :
    a ∉ bs.dropLast := by
  obtain ⟨ys,rfl⟩ := List.getLast?_eq_some_iff.mp ha
  rw [List.dropLast_concat]
  rw [List.nodup_append] at hn
  exact fun hm => hn.2.2 a hm a (List.mem_singleton_self a) rfl

theorem not_mem_tail {a : BufId} (hn : bs.Nodup) (ha : bs.head? = some a) : a ∉ bs.tail := by
  cases bs with
  | nil => cases ha
  | cons x xs =>
    cases ha
    exact (List.nodup_cons.mp hn).1

theorem shape_fill {data : ℕ → UInt8} {n : ℕ} (hs : Shape h false bs) (hn : bs.Nodup)
    (hb : bs.getLast? = some b) (hrb : h.bufs.get b = some rb) (hroom : rb.last+n ≤ rb.endPos)
    (hfull : full = decide (rb.last+n = rb.endPos)) :
    Shape (setBlock h b { rb with data := data, last := rb.last+n }) full bs := by
  refine shape_set hs (List.mem_of_mem_getLast? hb) hrb rfl rfl rfl ?_ ?_ ?_ ?_
  · rintro ⟨⟨h1,h2⟩,h3,h4,h5,h6,h7⟩
    exact ⟨⟨h1, h2⟩, h3, h4, h5, by simp only; omega, hroom⟩
  · exact fun hm => absurd hm (not_mem_dropLast hn hb)
  · intro b' hb' r hr
    cases hb.symm.trans hb'
    simp only [setBlock, Store.set_get, if_pos] at hr
    cases hr
    by_cases he : rb.last+n = rb.endPos
    · simp [hfull, he]
    · simp only [hfull, he, decide_false, Bool.false_eq_true, if_false]
      omega
  · exact fun _ h => h

theorem shape_drain {n : ℕ} (hs : Shape h full bs) (hn : bs.Nodup) (hb : bs.head? = some b)
    (hrb : h.bufs.get b = some rb) (hpos : rb.pos+n ≤ rb.last) :
    Shape (setBlock h b { rb with pos := rb.pos+n }) full bs := by
  refine shape_set hs (List.mem_of_mem_head? hb) hrb rfl rfl rfl ?_ ?_ ?_ ?_
  · rintro ⟨⟨h1,h2⟩,h3,h4,h5,h6,h7⟩
    exact ⟨⟨h1, h2⟩, h3, h4, by simp only; omega, hpos, h7⟩
  · exact fun _ h => h
  · intro b' hb' r hr
    simp only [setBlock] at hr
    rcases (Store.set_some ..).mp hr with ⟨rfl,rfl⟩ | ⟨-,hr⟩
    · exact hs.tail b' hb' rb hrb
    · exact hs.tail b' hb' r hr
  · exact fun hm => absurd hm (not_mem_tail hn hb)

theorem shape_data {data : ℕ → UInt8} (hs : Shape h full bs) (hb : b ∈ bs)
    (hrb : h.bufs.get b = some rb) : Shape (setBlock h b { rb with data := data }) full bs := by
  refine shape_set hs hb hrb rfl rfl rfl ?_ (fun _ h => h) ?_ (fun _ h => h)
  · rintro ⟨⟨h1,h2⟩,h3,h4,h5,h6,h7⟩
    exact ⟨⟨h1, h2⟩, h3, h4, h5, h6, h7⟩
  · intro b' hb' r hr
    simp only [setBlock] at hr
    rcases (Store.set_some ..).mp hr with ⟨rfl,rfl⟩ | ⟨-,hr⟩
    · exact hs.tail b' hb' rb hrb
    · exact hs.tail b' hb' r hr

theorem shape_link (hs : Shape h full bs) (hfull : bs = [] ∨ full = true) (hb : b ∉ bs)
    (hrb : PoolBuf h.bp rb) (hroom : h.bp.offset < (h.bp.size-1).toNat)
    (hbufs : h'.bufs = h.bufs.set b (rewound rb h.bp)) (hoff : h'.bp.offset = h.bp.offset)
    (hsize : h'.bp.size = h.bp.size) : Shape h' false (bs ++ [b]) := by
  have hget : h'.bufs.get b = some (rewound rb h.bp) := by simp [hbufs]
  have hold : ∀ a ∈ bs, h'.bufs.get a = h.bufs.get a := by
    intro a ha
    have hab : a ≠ b := by rintro rfl; exact hb ha
    rw [hbufs, Store.set_get, if_neg hab]
  have hs' := shape_congr hs hold hoff hsize
  constructor
  · intro a ha
    rcases List.mem_append.mp ha with ha | ha
    · exact hs'.each a ha
    · rw [List.mem_singleton.mp ha]
      exact ⟨_, hget, pipeBuf_congr
        ⟨⟨hrb.back, hrb.fits⟩, rfl, rfl, Nat.le_refl _, Nat.le_refl _,
          Nat.le_of_lt hroom⟩ hoff hsize⟩
  · intro a ha r hr
    rw [List.dropLast_concat] at ha
    rcases hfull with rfl | rfl
    · cases ha
    · rcases List.eq_nil_or_concat bs with rfl | ⟨ys,y,rfl⟩
      · cases ha
      · rw [List.concat_eq_append] at ha hs'
        rcases List.mem_append.mp ha with ha | ha
        · exact hs'.front a (by rwa [List.dropLast_concat]) r hr
        · exact hs'.tail a (by rw [List.mem_singleton.mp ha]; simp) r hr
  · intro a ha r hr
    rw [List.getLast?_concat] at ha
    cases ha
    rw [hget] at hr
    cases hr
    exact hroom
  · intro a ha r hr
    by_cases hab : a = b
    · rw [hab, hget] at hr
      cases hr
      rfl
    · refine hs'.unread a ?_ r hr
      cases bs with
      | nil => cases ha
      | cons x xs =>
        rw [List.cons_append, List.tail_cons, List.mem_append] at ha
        exact ha.resolve_right (fun h => hab (List.mem_singleton.mp h))

theorem shape_unlink (hs : Shape h full bs) : Shape h full bs.tail := by
  cases bs with
  | nil => exact hs
  | cons x xs =>
    cases xs with
    | nil => exact shape_nil
    | cons y ys =>
      exact ⟨fun b hb => hs.each b (List.mem_cons_of_mem x hb),
        fun b hb => hs.front b (List.mem_cons_of_mem x hb), hs.tail,
        fun b hb => hs.unread b (List.mem_cons_of_mem y hb)⟩

end shapes

section stages

variable {o : Option ConnId} {s t : Stage}

theorem pipes_of {w : World} {c : ConnId} {r : XtpConn} (hr : w.conns.get c = some r) (p : Pipe) :
    w.pipes c p = r.pipe p := by
  simp [World.pipes, hr]

theorem pipes_conns {w w' : World} (h : w'.conns = w.conns) (c : ConnId) (p : Pipe) :
    w'.pipes c p = w.pipes c p := by
  simp [World.pipes, h]

theorem pipes_put {w w' : World} {c : ConnId} {r' : XtpConn} (hput : w'.conns = w.conns.set c r')
    (d : ConnId) (q : Pipe) : w'.pipes d q = if d = c then r'.pipe q else w.pipes d q := by
  by_cases hd : d = c <;> simp [World.pipes, hput, hd]

theorem pipes_same {w w' : World} {c : ConnId} {r r' : XtpConn} (hr : w.conns.get c = some r)
    (hput : w'.conns = w.conns.set c r') (hp : ∀ q, r'.pipe q = r.pipe q) (d : ConnId) (q : Pipe) :
    w'.pipes d q = w.pipes d q := by
  rw [pipes_put hput]
  split
  · rename_i hd
    rw [hp, hd, pipes_of hr]
  · rfl

theorem same_buffers (hB : Buffers s) (hbufs : t.w.heap.bufs = s.w.heap.bufs)
    (hhead : t.w.heap.bp.head = s.w.heap.bp.head) (hoff : t.w.heap.bp.offset = s.w.heap.bp.offset)
    (hsize : t.w.heap.bp.size = s.w.heap.bp.size)
    (hpipes : ∀ c p, t.w.pipes c p = s.w.pipes c p)
    (hfull : ∀ c p, Busy.full t.busy c p = Busy.full s.busy c p) : Buffers t where
  room := by rw [hoff, hsize]; exact hB.room
  small := by rw [hsize]; exact hB.small
  wellFormed := hbufs ▸ hB.wellFormed
  headNodup := hhead ▸ hB.headNodup
  head := by
    intro b hb
    rw [hhead] at hb
    obtain ⟨r,hr,hp⟩ := hB.head b hb
    exact ⟨r, hbufs ▸ hr, hp.back, hsize ▸ hp.fits⟩
  apart := by
    intro c p b hb
    rw [hpipes] at hb
    exact hhead ▸ hB.apart c p b hb
  nodup := fun c p => hpipes c p ▸ hB.nodup c p
  disjoint := by
    intro c p d q b
    rw [hpipes, hpipes]
    exact hB.disjoint c p d q b
  shape := by
    intro c p
    rw [hpipes, hfull]
    exact shape_congr (hB.shape c p) (fun b _ => by rw [hbufs]) hoff hsize

theorem set_buffers (hB : Buffers s) {c : ConnId} {p : Pipe} {b : BufId} {rb' : XtpBuf}
    (hheap : t.w.heap = setBlock s.w.heap b rb') (hconns : t.w.conns = s.w.conns)
    (hb : b ∈ s.w.pipes c p)
    (hshape : Shape t.w.heap (Busy.full t.busy c p) (s.w.pipes c p))
    (hfull : ∀ d q, ¬ (d = c ∧ q = p) → Busy.full t.busy d q = Busy.full s.busy d q) :
    Buffers t where
  room := by rw [hheap]; exact hB.room
  small := by rw [hheap]; exact hB.small
  wellFormed := by
    obtain ⟨r,hr,-⟩ := (hB.shape c p).each b hb
    rw [hheap]
    exact hB.wellFormed.set (hB.wellFormed.lt hr) rb'
  headNodup := by rw [hheap]; exact hB.headNodup
  head := by
    intro a ha
    rw [hheap] at ha
    obtain ⟨r,hr,hp⟩ := hB.head a ha
    have hab : a ≠ b := by rintro rfl; exact hB.apart c p a hb ha
    rw [hheap]
    exact ⟨r, by simp [setBlock, hab, hr], hp⟩
  apart := by
    intro d q a ha
    rw [pipes_conns hconns] at ha
    rw [hheap]
    exact hB.apart d q a ha
  nodup := fun d q => pipes_conns hconns d q ▸ hB.nodup d q
  disjoint := by
    intro d q e u a
    rw [pipes_conns hconns, pipes_conns hconns]
    exact hB.disjoint d q e u a
  shape := by
    intro d q
    rw [pipes_conns hconns]
    by_cases hdq : d = c ∧ q = p
    · rw [hdq.1, hdq.2]
      exact hshape
    · rw [hfull d q hdq]
      refine shape_congr (hB.shape d q) (fun a ha => ?_) (by rw [hheap]; rfl) (by rw [hheap]; rfl)
      have hab : a ≠ b := by rintro rfl; exact hdq (hB.disjoint d q c p a ha hb)
      rw [hheap]
      simp [setBlock, hab]

theorem push_buffers (hB : Buffers s) {make : XtpBufPool → XtpBuf}
    (hmake : PoolBuf s.w.heap.bp (make s.w.heap.bp)) (hheap : t.w.heap = pushBlock make s.w.heap)
    (hconns : t.w.conns = s.w.conns) (hbusy : t.busy = s.busy) : Buffers t := by
  have hnone : s.w.heap.bufs.get s.w.heap.bufs.next = none := hB.wellFormed _ (Nat.le_refl _)
  have hold : ∀ b r, s.w.heap.bufs.get b = some r → t.w.heap.bufs.get b = some r := by
    intro b r hr
    have hne : b ≠ s.w.heap.bufs.next := Nat.ne_of_lt (hB.wellFormed.lt hr)
    rw [hheap]
    simp [pushBlock, hne, hr]
  have hpipe : ∀ c p, ∀ b ∈ s.w.pipes c p, b ≠ s.w.heap.bufs.next := by
    rintro c p b hb rfl
    obtain ⟨r,hr,-⟩ := (hB.shape c p).each _ hb
    rw [hnone] at hr
    cases hr
  constructor
  · rw [hheap]; exact hB.room
  · rw [hheap]; exact hB.small
  · rw [hheap]; exact hB.wellFormed.push _
  · rw [hheap]
    refine List.nodup_cons.mpr ⟨fun hm => ?_, hB.headNodup⟩
    obtain ⟨r,hr,-⟩ := hB.head _ hm
    rw [hnone] at hr
    cases hr
  · intro b hb
    rw [hheap] at hb
    rcases List.mem_cons.mp hb with rfl | hb
    · exact ⟨make s.w.heap.bp, by rw [hheap]; simp [pushBlock], hmake.back,
        by rw [hheap]; exact hmake.fits⟩
    · obtain ⟨r,hr,hp⟩ := hB.head b hb
      exact ⟨r, hold b r hr, hp.back, by rw [hheap]; exact hp.fits⟩
  · intro c p b hb
    rw [pipes_conns hconns] at hb
    rw [hheap]
    exact fun hm => (List.mem_cons.mp hm).elim (hpipe c p b hb) (hB.apart c p b hb)
  · exact fun c p => pipes_conns hconns c p ▸ hB.nodup c p
  · intro c p d q b
    rw [pipes_conns hconns, pipes_conns hconns]
    exact hB.disjoint c p d q b
  · intro c p
    rw [pipes_conns hconns, hbusy]
    refine shape_congr (hB.shape c p) (fun b hb => ?_) (by rw [hheap]; rfl) (by rw [hheap]; rfl)
    obtain ⟨r,hr,-⟩ := (hB.shape c p).each b hb
    rw [hold b r hr, hr]

theorem link_buffers (hB : Buffers s) {c : ConnId} {p : Pipe} {r : XtpConn} {b : BufId}
    {rest : List BufId} {rb : XtpBuf} (hr : s.w.conns.get c = some r)
    (hhead : s.w.heap.bp.head = b::rest) (hrb : s.w.heap.bufs.get b = some rb)
    (hp : r.pipe p = [] ∨ Busy.full s.busy c p = true)
    (hw : t.w = linked s.w c p r b rest rb) (hfullc : Busy.full t.busy c p = false)
    (hfull : ∀ d q, ¬ (d = c ∧ q = p) → Busy.full t.busy d q = Busy.full s.busy d q) :
    Buffers t := by
  have hnd := List.nodup_cons.mp (hhead ▸ hB.headNodup)
  have hb : b ∈ s.w.heap.bp.head := hhead ▸ List.mem_cons_self ..
  have hfree : ∀ d q, b ∉ s.w.pipes d q := fun d q hm => hB.apart d q b hm hb
  obtain ⟨_,hrb',hpool⟩ := hB.head b hb
  cases hrb.symm.trans hrb'
  have hbufs : t.w.heap.bufs = s.w.heap.bufs.set b (rewound rb s.w.heap.bp) := by rw [hw]; rfl
  have hbp : t.w.heap.bp = { s.w.heap.bp with head := rest, n := cInt (s.w.heap.bp.n-1) } := by
    rw [hw]; rfl
  have hold : ∀ a, a ≠ b → t.w.heap.bufs.get a = s.w.heap.bufs.get a := by
    intro a ha
    rw [hbufs, Store.set_get, if_neg ha]
  have hpipes : ∀ d q, t.w.pipes d q =
      if d = c ∧ q = p then s.w.pipes c p ++ [b] else s.w.pipes d q := by
    intro d q
    rw [hw, pipes_put (linked_conns ..)]
    by_cases hd : d = c
    · subst hd
      by_cases hq : q = p <;> simp [hq, pipes_of hr]
    · simp [hd]
  constructor
  · rw [hbp]; exact hB.room
  · rw [hbp]; exact hB.small
  · rw [hbufs]; exact hB.wellFormed.set (hB.wellFormed.lt hrb) _
  · rw [hbp]; exact hnd.2
  · intro a ha
    rw [hbp] at ha
    have hab : a ≠ b := by rintro rfl; exact hnd.1 ha
    obtain ⟨ra,hra,hpa⟩ := hB.head a (hhead ▸ List.mem_cons_of_mem b ha)
    exact ⟨ra, (hold a hab).trans hra, hpa.back, by rw [hbp]; exact hpa.fits⟩
  · intro d q a ha
    rw [hbp]
    rw [hpipes] at ha
    have hrest : a ∈ rest → a ∈ s.w.heap.bp.head := fun h => hhead ▸ List.mem_cons_of_mem b h
    split at ha
    · rcases List.mem_append.mp ha with ha | ha
      · exact fun hm => hB.apart c p a ha (hrest hm)
      · rw [List.mem_singleton.mp ha]
        exact hnd.1
    · exact fun hm => hB.apart d q a ha (hrest hm)
  · intro d q
    rw [hpipes]
    split
    · rw [List.nodup_append]
      refine ⟨hB.nodup c p, List.nodup_singleton b, ?_⟩
      rintro a ha _ hab rfl
      exact hfree c p (List.mem_singleton.mp hab ▸ ha)
    · exact hB.nodup d q
  · intro d q e u a hd he
    have hmem : ∀ d q, a ∈ t.w.pipes d q → a ∈ s.w.pipes d q ∨ a = b ∧ d = c ∧ q = p := by
      intro d q hm
      rw [hpipes] at hm
      split at hm
      · rename_i hdq
        rw [hdq.1, hdq.2]
        exact (List.mem_append.mp hm).imp id (fun h => ⟨List.mem_singleton.mp h, rfl, rfl⟩)
      · exact Or.inl hm
    rcases hmem d q hd with hd | ⟨rfl,rfl,rfl⟩
    · rcases hmem e u he with he | ⟨rfl,-,-⟩
      · exact hB.disjoint d q e u a hd he
      · exact absurd hd (hfree d q)
    · rcases hmem e u he with he | ⟨-,rfl,rfl⟩
      · exact absurd he (hfree e u)
      · exact ⟨rfl, rfl⟩
  · intro d q
    rw [hpipes]
    by_cases hdq : d = c ∧ q = p
    · rw [if_pos hdq, hdq.1, hdq.2, hfullc]
      refine shape_link (hB.shape c p) ?_ (hfree c p) hpool hB.room hbufs
        (by rw [hbp]) (by rw [hbp])
      rwa [pipes_of hr]
    · rw [if_neg hdq, hfull d q hdq]
      refine shape_congr (hB.shape d q) (fun a ha => hold a ?_) (by rw [hbp]) (by rw [hbp])
      rintro rfl
      exact hfree d q ha

theorem unlink_buffers (hB : Buffers s) {c : ConnId} {p : Pipe} {r : XtpConn} {b : BufId}
    (hr : s.w.conns.get c = some r) (hb : (r.pipe p).head? = some b)
    (hw : t.w = unlinked s.w c p r b)
    (hfull : ∀ d q, Busy.full t.busy d q = Busy.full s.busy d q) : Buffers t := by
  have hbp : b ∈ s.w.pipes c p := pipes_of hr p ▸ List.mem_of_mem_head? hb
  have hbufs : t.w.heap.bufs = s.w.heap.bufs := by rw [hw]; rfl
  have hbp' : t.w.heap.bp =
      { s.w.heap.bp with head := b::s.w.heap.bp.head, n := cInt (s.w.heap.bp.n+1) } := by
    rw [hw]
    rfl
  have hpipes : ∀ d q, t.w.pipes d q =
      if d = c ∧ q = p then (s.w.pipes c p).tail else s.w.pipes d q := by
    intro d q
    rw [hw, pipes_put (unlinked_conns ..)]
    by_cases hd : d = c
    · subst hd
      by_cases hq : q = p <;> simp [hq, pipes_of hr]
    · simp [hd]
  have hmem : ∀ d q a, a ∈ t.w.pipes d q → a ∈ s.w.pipes d q ∧ a ≠ b := by
    intro d q a ha
    rw [hpipes] at ha
    split at ha
    · rename_i hdq
      rw [hdq.1, hdq.2]
      refine ⟨List.mem_of_mem_tail ha, ?_⟩
      rintro rfl
      exact not_mem_tail (hB.nodup c p) (pipes_of hr p ▸ hb) ha
    · rename_i hdq
      refine ⟨ha, ?_⟩
      rintro rfl
      exact hdq (hB.disjoint d q c p a ha hbp)
  obtain ⟨rb,hrb,hshape⟩ := (hB.shape c p).each b hbp
  constructor
  · rw [hbp']; exact hB.room
  · rw [hbp']; exact hB.small
  · rw [hbufs]; exact hB.wellFormed
  · rw [hbp']
    exact List.nodup_cons.mpr ⟨hB.apart c p b hbp, hB.headNodup⟩
  · intro a ha
    rw [hbp'] at ha
    rw [hbufs, hbp']
    rcases List.mem_cons.mp ha with rfl | ha
    · exact ⟨rb, hrb, hshape.back, hshape.fits⟩
    · obtain ⟨ra,hra,hpa⟩ := hB.head a ha
      exact ⟨ra, hra, hpa.back, hpa.fits⟩
  · intro d q a ha
    obtain ⟨hm,hne⟩ := hmem d q a ha
    rw [hbp']
    exact fun h => (List.mem_cons.mp h).elim hne (hB.apart d q a hm)
  · intro d q
    rw [hpipes]
    split
    · exact (hB.nodup c p).tail
    · exact hB.nodup d q
  · exact fun d q e u a hd he => hB.disjoint d q e u a (hmem d q a hd).1 (hmem e u a he).1
  · intro d q
    have hcongr : Shape t.w.heap (Busy.full s.busy d q) (s.w.pipes d q) :=
      shape_congr (hB.shape d q) (fun a _ => by rw [hbufs]) (by rw [hbp']) (by rw [hbp'])
    rw [hpipes, hfull]
    split
    · rename_i hdq
      rw [hdq.1, hdq.2] at hcongr ⊢
      exact shape_unlink hcongr
    · exact hcongr

theorem mem_pipes {w : World} {c : ConnId} {r : XtpConn} {p : Pipe} {b : BufId}
    (hr : w.conns.get c = some r) (hb : b ∈ r.pipe p) : b ∈ w.pipes c p := by
  rwa [pipes_of hr]

theorem full_other {c d : ConnId} {p q : Pipe} {full : Bool} (h : ¬ (d = c ∧ q = p)) :
    Busy.full (.filling c p full) d q = false := by
  simp only [Busy.full, Busy.filling.injEq, decide_eq_false_iff_not]
  rintro ⟨rfl,rfl,-⟩
  exact h ⟨rfl, rfl⟩

theorem broken_full (c d : ConnId) (p q : Pipe) (side : Side) :
    Busy.full (broken c p side) d q = false := by
  cases side <;> simp [Busy.full, broken]

theorem act_buffers (h : Act o s t) (hB : Buffers s) (hR : Records s) : Buffers t := by
  cases h with
  | answers | mallocs | countMax | stopUpcTimer | pass | doom | restClient | restUpstream
  | stopTimer | settle =>
    exact same_buffers hB rfl rfl rfl rfl (fun _ _ => rfl) (fun _ _ => rfl)
  | answered =>
    exact same_buffers hB rfl rfl rfl rfl (fun _ _ => rfl) (fun _ _ => by simp [Busy.full])
  | requested =>
    split <;>
      exact same_buffers hB rfl rfl rfl rfl (fun _ _ => rfl) (fun _ _ => by simp [Busy.full])
  | beginFill =>
    exact same_buffers hB rfl rfl rfl rfl (fun _ _ => rfl) (fun _ _ => by simp [Busy.full])
  | leak =>
    exact same_buffers hB rfl rfl rfl rfl (fun _ _ => rfl)
      (fun _ _ => by rw [broken_full]; simp [Busy.full])
  | @addBlock _ w =>
    have hroom : w.heap.bp.offset < (w.heap.bp.size-1).toNat := hB.room
    have hfits : 0 ≤ w.heap.bp.size := by omega
    exact push_buffers hB ⟨rfl, hfits⟩ rfl rfl rfl
  | link hr hb hrb hp =>
    refine link_buffers hB hr hb hrb (hp.imp_right (by simp [Busy.full])) rfl
      (by simp [Busy.full]) ?_
    intro d q hdq
    rw [full_other hdq, full_other hdq]
  | @fill w fs is c p r b rb chunks hr hb hrb hpos hroom =>
    have hs : Shape w.heap false (w.pipes c p) := by simpa [Busy.full] using hB.shape c p
    refine set_buffers hB rfl rfl (mem_pipes hr (List.mem_of_mem_getLast? hb)) ?_ ?_
    · exact shape_fill hs (hB.nodup c p) (by rwa [pipes_of hr]) hrb hroom (by simp [Busy.full])
    · intro d q hdq
      rw [full_other hdq, full_other hdq]
  | @lose w fs is c p r b rb chunks hr hb hrb =>
    have hs : Shape w.heap false (w.pipes c p) := by simpa [Busy.full] using hB.shape c p
    refine set_buffers hB rfl rfl (mem_pipes hr (List.mem_of_mem_getLast? hb)) ?_ ?_
    · rw [broken_full]
      exact shape_data hs (mem_pipes hr (List.mem_of_mem_getLast? hb)) hrb
    · intro d q hdq
      rw [full_other hdq, broken_full]
  | @drain w fs is c p r b rb ks hr hp hb hrb hks =>
    refine set_buffers hB rfl rfl (mem_pipes hr (List.mem_of_mem_head? hb)) ?_ (fun _ _ _ => rfl)
    exact shape_drain (hB.shape c p) (hB.nodup c p) (by rwa [pipes_of hr]) hrb hks
  | unlink hr hb hrb hbusy => exact unlink_buffers hB hr hb rfl (fun _ _ => rfl)
  | enqueue hr =>
    exact same_buffers hB rfl rfl rfl rfl
      (pipes_same hr (enqueued_conns ..) (fun q => by cases q <;> rfl)) (fun _ _ => rfl)
  | noSocket leaked _ _ hr =>
    exact same_buffers hB (by simp) (by simp) (by simp) (by simp)
      (pipes_same hr (abandoned_conns ..) (fun q => by cases q <;> rfl)) (fun _ _ => rfl)
  | promote _ _ hr =>
    exact same_buffers hB (by simp) (by simp) (by simp) (by simp)
      (pipes_same hr (promoted_conns ..) (fun q => by cases q <;> rfl)) (fun _ _ => rfl)
  | refuse _ _ hr =>
    exact same_buffers hB (by simp) (by simp) (by simp) (by simp)
      (pipes_same hr (closedUpstream_conns ..) (fun q => by cases q <;> rfl)) (fun _ _ => rfl)
  | connect _ hr =>
    exact same_buffers hB (by simp) (by simp) (by simp) (by simp)
      (pipes_same hr (connected_conns ..) (fun q => by cases q <;> rfl)) (fun _ _ => rfl)
  | @closeUpstream w busy fs is c r hr hup hbusy =>
    refine same_buffers hB (by simp) (by simp) (by simp) (by simp)
      (pipes_same hr (closedUpstream_conns ..) (fun q => by cases q <;> rfl)) fun d q => ?_
    rcases hbusy with rfl | ⟨p,rfl⟩ | rfl <;> simp [Busy.full, afterClosing]
  | timeOut hr =>
    exact same_buffers hB rfl rfl rfl rfl
      (pipes_same hr (World.putConn_conns ..) (fun q => by cases q <;> rfl))
      (fun _ _ => by simp [Busy.full])
  | closeClient hr =>
    exact same_buffers hB (by simp) (by simp) (by simp) (by simp)
      (pipes_same hr (closedClient_conns ..) (fun q => by cases q <;> rfl)) (fun _ _ => rfl)
  | @free w fs is c r hr hs hup h1 h2 =>
    refine same_buffers hB rfl rfl rfl rfl (fun d q => ?_) (fun _ _ => by simp [Busy.full])
    by_cases hd : d = c
    · subst hd
      rw [pipes_of hr]
      cases q <;> simp [World.pipes, XtpConn.pipe, h1, h2]
    · simp [World.pipes, hd]
  | @welcome w fs is fd =>
    refine same_buffers hB (by simp) (by simp) (by simp) (by simp) (fun d q => ?_) (fun _ _ => rfl)
    by_cases hd : d = w.conns.next
    · subst hd
      have hnone : w.conns.get w.conns.next = none := hR.wellFormed _ (Nat.le_refl _)
      cases q <;> simp [World.pipes, hnone, Access.newConn, XtpConn.pipe]
    · simp [World.pipes, hd]
  | turnAway =>
    exact same_buffers hB (by simp) (by simp) (by simp) (by simp) (pipes_conns (by simp))
      (fun _ _ => rfl)

end stages

end TcpFunnel.BufferInvariant
