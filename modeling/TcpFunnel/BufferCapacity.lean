import TcpFunnel.PoolRuns

/-!
# The capacity of a buffer

Three sizes are compared: that of the pool's blocks, the one recorded in a
buffer, which is zero until it is adjusted, and the one asked for. A buffer
adjusted to less than the pool's size goes back as a short block, and one that
is asked for exactly its recorded size is one byte too small.
-/

set_option autoImplicit false

namespace TcpFunnel.BufferCapacity
open TcpFunnel.BufferPool TcpFunnel.CInt TcpFunnel.BufferAdjust TcpFunnel.Reachability
open TcpFunnel.TransferRuns TcpFunnel.PipeSimulation TcpFunnel.PoolRuns

/-- The size given to `x_buf_init` leaves more than one byte behind the header. -/
def Large (_ size : ℤ) (_ : List Bool) : Prop := sizeofXtpBuf+1 < size

/-- No buffer is given back that has been adjusted below the size of the pool,
and none is adjusted to what its record but not its window has room for. -/
def Sound (s : PoolUse) (l : Request) : Prop :=
  match l.call with
  | .alloc | .ralloc _ => True
  | .adjust b size => ∀ rb ∈ s.heap.bufs.get b, size ≤ rb.size → size ≤ (rb.endPos : ℤ)-rb.start
  | .free b => ∀ rb ∈ s.heap.bufs.get b,
      rb.size = 0 ∨ s.heap.bp.size ≤ rb.size+s.heap.bp.offset

instance (s : PoolUse) (l : Request) : Decidable (Sound s l) := by
  unfold Sound
  cases l.call <;> infer_instance

def FreeRoom (h : Heap) : Prop :=
  ∀ b ∈ h.bp.head, ∀ rb, h.bufs.get b = some rb → h.bp.size ≤ rb.block

def Fits (h : Heap) (b : BufId) (size : ℤ) : Prop :=
  ∃ rb, h.bufs.get b = some rb ∧ size ≤ (rb.endPos : ℤ)-rb.start

/-- The recorded size tells the length of the block. -/
def Recorded (bp : XtpBufPool) (rb : XtpBuf) : Prop :=
  (rb.size = 0 ∧ (rb.block : ℤ) = bp.size) ∨ (0 < rb.size ∧ (rb.block : ℤ) = rb.size+bp.offset)

structure Capacity (h : Heap) : Prop where
  offset : h.bp.offset = sizeofXtpBuf
  size : sizeofXtpBuf+1 < h.bp.size
  recorded : ∀ b rb, h.bufs.get b = some rb → Recorded h.bp rb
  room : FreeRoom h

variable {h h' : Heap} {b : BufId} {rb : XtpBuf} {s t : PoolUse} {l : Request} {size : ℤ}

theorem capacity_push {make : XtpBufPool → XtpBuf}
    (hmake : ∀ bp, (make bp).size = 0 ∧ (make bp).block = bp.size.toNat) (hC : Capacity h) :
    Capacity (pushBlock make h) := by
  have hblock : ((make h.bp).block : ℤ) = h.bp.size := by
    have hsize := hC.size
    rw [(hmake h.bp).2]
    omega
  refine ⟨hC.offset, hC.size, fun a ra hra => ?_, fun a ha ra hra => ?_⟩
  · simp only [pushBlock, Store.push_some] at hra
    rcases hra with ⟨-,rfl⟩ | ⟨-,hra⟩
    · exact Or.inl ⟨(hmake h.bp).1, hblock⟩
    · exact hC.recorded a ra hra
  · simp only [pushBlock, Store.push_some] at hra
    rcases hra with ⟨-,rfl⟩ | ⟨hne,hra⟩
    · exact hblock.ge
    · exact hC.room a ((List.mem_cons.mp ha).resolve_left hne) ra hra

theorem capacity_set {rb' : XtpBuf} (hC : Capacity h) (hrb : h.bufs.get b = some rb)
    (hbufs : h'.bufs = h.bufs.set b rb') (hsize : rb'.size = rb.size)
    (hblock : rb'.block = rb.block) (hoff : h'.bp.offset = h.bp.offset)
    (hpool : h'.bp.size = h.bp.size) (hhead : h'.bp.head ⊆ h.bp.head) : Capacity h' := by
  refine ⟨hoff.trans hC.offset, hpool ▸ hC.size, fun a ra hra => ?_, fun a ha ra hra => ?_⟩
  · rw [hbufs] at hra
    rcases (Store.set_some ..).mp hra with ⟨rfl,rfl⟩ | ⟨-,hra⟩
    · simpa only [Recorded, hsize, hblock, hoff, hpool] using hC.recorded a rb hrb
    · simpa only [Recorded, hoff, hpool] using hC.recorded a ra hra
  · rw [hbufs] at hra
    rcases (Store.set_some ..).mp hra with ⟨rfl,rfl⟩ | ⟨-,hra⟩
    · simpa only [hblock, hpool] using hC.room a (hhead ha) rb hrb
    · simpa only [hpool] using hC.room a (hhead ha) ra hra

theorem Capacity.supplied (hC : Capacity h) (mallocs : List Bool) :
    Capacity { h with mallocs := mallocs } :=
  ⟨hC.offset, hC.size, hC.recorded, hC.room⟩

theorem capacity_reallocated {num : ℤ} (hC : Capacity h) : Capacity (reallocated num h) :=
  grown_keeps Capacity (fun _ => capacity_push fun _ => ⟨rfl, rfl⟩)
    ⟨hC.offset, hC.size, hC.recorded, hC.room⟩

theorem capacity_obtained (hO : Obtained b h h') (hC : Capacity h) : Capacity h' ∧
    ∃ rb, h'.bufs.get b = some rb ∧ rb.start ≤ rb.endPos ∧ rb.endPos < rb.block := by
  induction hO with
  | @taken h rest rb hb hrb =>
    have hroom := hC.room b (hb ▸ List.mem_cons_self ..) rb hrb
    have hsize := hC.size
    have hset : Capacity (takenHead h b rest rb) :=
      capacity_set hC hrb rfl rfl rfl rfl rfl (by simp [takenHead, hb])
    refine ⟨hset, rewound rb h.bp, by simp [takenHead], ?_, ?_⟩
    · simp only [rewound, hC.offset]
      omega
    · simp only [rewound]
      omega
  | grown hnil hk hroom hlater ih => exact ih (capacity_reallocated hC)

theorem adjusted_large {bp : XtpBufPool} (hoff : bp.offset = sizeofXtpBuf) (hlo : 0 < size)
    (hhi : size < 2147483648) (hpos : 0 ≤ adjustedSize bp size) :
    size+sizeofXtpBuf < adjustedSize bp size ∧ adjustedSize bp size < 2147483648 := by
  have hsizeT : cSizeT (size+bp.offset) = size+64 := by
    rw [hoff]
    unfold cSizeT sizeofXtpBuf
    omega
  unfold adjustedSize at hpos ⊢
  rw [hsizeT] at hpos ⊢
  unfold nodeBufsiz at hpos ⊢
  by_cases hlt : ((size+64) / 8192 + 1) * 8192 < 2147483648
  · rw [cInt_small (by omega) hlt]
    unfold sizeofXtpBuf
    omega
  · exfalso
    have hwrap : cInt (((size+64) / 8192 + 1) * 8192) =
        ((size+64) / 8192 + 1) * 8192-4294967296 := by
      unfold cInt
      rw [Int.bmod_def]
      split <;> omega
    omega

theorem recorded_resized {bp : XtpBufPool} (hoff : bp.offset = sizeofXtpBuf) (hlo : 0 < size)
    (hhi : size < 2147483648) (hpos : 0 ≤ adjustedSize bp size) :
    Recorded bp (resized rb bp (adjustedSize bp size)) := by
  obtain ⟨hlarge,hint⟩ := adjusted_large hoff hlo hhi hpos
  right
  simp only [resized, hoff]
  rw [cInt_small (by omega) (by omega)]
  constructor <;> omega

theorem Recorded.nonneg {bp : XtpBufPool} (h : Recorded bp rb) : 0 ≤ rb.size := by
  rcases h with h | h <;> omega

theorem capacity_moved {l : List Bool} (hC : Capacity h) (hb : b ∉ h.bp.head)
    (hrb : h.bufs.get b = some rb) (hlt : rb.size < size) (hhi : size < 2147483648)
    (hpos : 0 ≤ adjustedSize h.bp size) : Capacity { h with
      mallocs := l, bufs := h.bufs.set b (resized rb h.bp (adjustedSize h.bp size)) } := by
  have hlo := (hC.recorded b rb hrb).nonneg
  refine ⟨hC.offset, hC.size, fun a ra hra => ?_, fun a ha ra hra => ?_⟩
  · rcases (Store.set_some ..).mp hra with ⟨-,rfl⟩ | ⟨-,hra⟩
    · exact recorded_resized hC.offset (by omega) hhi hpos
    · exact hC.recorded a ra hra
  · rcases (Store.set_some ..).mp hra with ⟨rfl,-⟩ | ⟨-,hra⟩
    · exact absurd ha hb
    · exact hC.room a ha ra hra

theorem putBack_room (hC : Capacity h) (hrb : h.bufs.get b = some rb) :
    FreeRoom (putBack h b) ↔ rb.size = 0 ∨ h.bp.size ≤ rb.size+h.bp.offset := by
  have hblock : h.bp.size ≤ rb.block ↔ rb.size = 0 ∨ h.bp.size ≤ rb.size+h.bp.offset := by
    rcases hC.recorded b rb hrb with ⟨hzero,hlen⟩ | ⟨hpos,hlen⟩
    · simp [hzero, hlen]
    · simp [hpos.ne', hlen]
  rw [← hblock]
  constructor
  · intro hroom
    exact hroom b (List.mem_cons_self ..) rb hrb
  · intro hlen a ha ra hra
    rcases List.mem_cons.mp ha with rfl | ha
    · cases hrb.symm.trans hra
      exact hlen
    · exact hC.room a ha ra hra

theorem capacity_discarded (hC : Capacity h) : Capacity (discarded h b) := by
  refine ⟨hC.offset, hC.size, fun a ra hra => ?_, fun a ha ra hra => ?_⟩
  · exact hC.recorded a ra ((Store.free_some ..).mp hra).2
  · exact hC.room a ha ra ((Store.free_some ..).mp hra).2

theorem stepped_capacity (hS : Sane s.heap s.out) (hC : Capacity s.heap) (ho : Sound s l)
    (h : Stepped s l.mallocs l.call t) : Capacity t.heap := by
  obtain ⟨call,mallocs⟩ := l
  have hC' := hC.supplied mallocs
  cases h with
  | alloc hO => exact (capacity_obtained hO hC').1
  | ralloc => exact capacity_reallocated hC'
  | @adjust b size rb res h' hb hrb hlo hhi hadjust =>
    have hout : b ∉ s.heap.bp.head :=
      fun hhead => (List.nodup_append.mp hS.nodup).2.2 b hhead b hb rfl
    cases hadjust with
    | kept => exact hC'
    | refused hlt rest => exact hC.supplied rest
    | moved hlt hpos rest => exact capacity_moved hC' hout hrb hlt hhi hpos
  | discard => exact capacity_discarded hC'
  | putBack hb hrb hfits =>
    exact ⟨hC.offset, hC.size, hC.recorded, (putBack_room hC' hrb).mpr (ho _ hrb)⟩

theorem start_capacity (h : (pool Large).start s) : Capacity s.heap := by
  obtain ⟨max,size,mallocs,hsize,-,rfl⟩ := start_grown h
  apply grown_keeps Capacity (fun _ => capacity_push fun _ => ⟨rfl, rfl⟩)
  exact ⟨rfl, hsize, by rintro b rb ⟨⟩, by simp [FreeRoom]⟩

theorem reaches_capacity (h : Reaches (pool Large) Sound s) : Capacity s.heap :=
  reaches_along (fun s => Capacity s.heap) (fun _ => start_capacity)
    (fun _ _ _ hS hC ho hs => stepped_capacity hS hC ho hs) h

/-- A call of `x_buf_free` keeps the free list roomy exactly when it is sound. -/
theorem free_sound {mallocs : List Bool} (hC : Capacity s.heap)
    (h : Stepped s mallocs (.free b) t) : FreeRoom t.heap ↔ Sound s ⟨.free b, mallocs⟩ := by
  have hsound : ∀ {rb}, s.heap.bufs.get b = some rb → (Sound s ⟨.free b, mallocs⟩ ↔
      rb.size = 0 ∨ s.heap.bp.size ≤ rb.size+s.heap.bp.offset) := by
    intro rb hrb
    constructor
    · exact fun hs => hs rb hrb
    · intro hlen ra hra
      cases hrb.symm.trans hra
      exact hlen
  have hC' := hC.supplied mallocs
  cases h with
  | discard hb hrb hbig =>
    refine iff_of_true (capacity_discarded hC').room ((hsound hrb).mpr (Or.inr ?_))
    omega
  | putBack hb hrb hfits => exact (putBack_room hC' hrb).trans (hsound hrb).symm

/-- The buffer that `x_buf_adjust` returns is large enough exactly when the
call is sound. -/
theorem adjust_sound {mallocs : List Bool} {b' : BufId} (hC : Capacity h)
    (hrb : h.bufs.get b = some rb) (hhi : size < 2147483648)
    (hadjust : Adjusted { h with mallocs := mallocs } b rb size (some b') h') :
    Fits h' b' size ↔ (size ≤ rb.size → size ≤ (rb.endPos : ℤ)-rb.start) := by
  cases hadjust with
  | kept hle =>
    constructor
    · rintro ⟨ra,hra,hfits⟩ -
      cases hrb.symm.trans hra
      exact hfits
    · exact fun hsound => ⟨rb, hrb, hsound hle⟩
  | moved hlt hpos rest =>
    have hlo := (hC.recorded b rb hrb).nonneg
    have hlarge := (adjusted_large hC.offset (by omega) hhi hpos).1
    refine iff_of_true ⟨resized rb h.bp (adjustedSize h.bp size), by simp, ?_⟩
      fun hle => absurd hlt (Int.not_lt.mpr hle)
    simp only [resized, hC.offset]
    omega

/-- The free list stays roomy and what is handed out lies inside its block.
A further call of `x_buf_free` keeps it so, and one of `x_buf_adjust` returns a
buffer that is large enough, exactly when it is sound. -/
theorem capacity_kept (h : Reaches (pool Large) Sound s) :
    FreeRoom s.heap ∧
    (∀ mallocs b h', xBufAlloc.run { s.heap with mallocs := mallocs } = .ok b h' →
      ∃ rb, h'.bufs.get b = some rb ∧ rb.start ≤ rb.endPos ∧ rb.endPos < rb.block) ∧
    (∀ b mallocs t, (pool Large).step s ⟨.free b, mallocs⟩ t →
      (FreeRoom t.heap ↔ Sound s ⟨.free b, mallocs⟩)) ∧
    ∀ b size mallocs b' h', Call.Proper s (.adjust b size) →
      (xBufAdjust b size).run { s.heap with mallocs := mallocs } = .ok (some b') h' →
      (Fits h' b' size ↔ Sound s ⟨.adjust b size, mallocs⟩) := by
  have hS := reaches_sane h
  have hC := reaches_capacity h
  refine ⟨hC.room, fun mallocs b h' hrun => ?_, fun b mallocs t hs => ?_, ?_⟩
  · exact (capacity_obtained (alloc_obtained (mallocs.length+1) hrun) (hC.supplied mallocs)).2
  · exact free_sound hC (step_cases hS hs)
  · rintro b size mallocs b' h' ⟨hb,hlo,hhi⟩ hrun
    obtain ⟨rb,hrb,hbp⟩ := hS.live b (List.mem_append_right _ hb)
    have hadjust : Adjusted { s.heap with mallocs := mallocs } b rb size (some b') h' :=
      adjust_cases hrb hbp hrun
    refine (adjust_sound hC hrb hhi hadjust).trans ⟨fun hsound ra hra => ?_, ?_⟩
    · cases hrb.symm.trans hra
      exact hsound
    · exact fun hsound => hsound rb hrb

theorem capacity_kept_enlarged : ∃ s, Reaches (pool Large) Sound s ∧ s.heap.bp.head = [1] ∧
    FreeRoom s.heap := by
  have hplay : ((begun 2 nodeBufsiz [true, true]).bind (serve Sound ·
      [⟨.alloc, []⟩, ⟨.alloc, []⟩, ⟨.adjust 0 10000, [true]⟩, ⟨.free 1, []⟩, ⟨.free 0, []⟩])).any
      (fun s => s.heap.bp.head = [1]) = true := by
    decide +kernel
  obtain ⟨s,hs,hhead⟩ := begun_reaches Large _ (by unfold Large; decide) hplay
  exact ⟨s, hs, of_decide_eq_true hhead, (capacity_kept hs).1⟩

/-- A block of 20000 bytes is adjusted to one byte and given back. A block of
`NODE_BUFSIZ` bytes is adjusted to one byte and then to its recorded size. -/
theorem capacity_lost : (∃ s, Reachable (pool Large) s ∧ ¬ FreeRoom s.heap) ∧
    ∃ s h', Reachable (pool Large) s ∧ Call.Proper s (.adjust 0 8128) ∧
      (xBufAdjust 0 8128).run s.heap = .ok (some 0) h' ∧ ¬ Fits h' 0 8128 := by
  constructor
  · have hplay : ((begun 1 20000 [true]).bind (serve (fun _ _ => True) ·
        [⟨.alloc, []⟩, ⟨.adjust 0 1, [true]⟩, ⟨.free 0, []⟩])).any
        (fun s => s.heap.bp.head = [0] ∧ s.heap.bp.size = 20000 ∧
          (s.heap.bufs.get 0).any (fun rb => rb.block = 8192)) = true := by
      decide +kernel
    obtain ⟨s,hs,hshort⟩ := begun_reaches Large _ (by unfold Large; decide) hplay
    obtain ⟨hhead,hsize,hblock⟩ := of_decide_eq_true hshort
    obtain ⟨rb,hrb,hblock⟩ := (Option.any_eq_true _ _).mp hblock
    refine ⟨s, hs, fun hroom => ?_⟩
    have hlen := hroom 0 (hhead ▸ List.mem_cons_self ..) rb hrb
    rw [hsize, of_decide_eq_true hblock] at hlen
    exact absurd hlen (by decide)
  · have hplay : ((begun 1 nodeBufsiz [true]).bind (serve (fun _ _ => True) ·
        [⟨.alloc, []⟩, ⟨.adjust 0 1, [true]⟩])).any
        (fun s => s.out = [0] ∧ (s.heap.bufs.get 0).any
          (fun rb => rb.size = 8128 ∧ rb.start = 64 ∧ rb.endPos = 8191)) = true := by
      decide +kernel
    obtain ⟨s,hs,hexact⟩ := begun_reaches Large _ (by unfold Large; decide) hplay
    obtain ⟨hout,hget⟩ := of_decide_eq_true hexact
    obtain ⟨rb,hrb,hrecord⟩ := (Option.any_eq_true _ _).mp hget
    obtain ⟨hsize,hstart,hend⟩ := of_decide_eq_true hrecord
    refine ⟨s, s.heap, hs, ?_, adjust_kept hrb (by omega), ?_⟩
    · exact ⟨by simp [hout], by decide, by decide⟩
    · rintro ⟨ra,hra,hfits⟩
      cases hrb.symm.trans hra
      omega

end TcpFunnel.BufferCapacity
