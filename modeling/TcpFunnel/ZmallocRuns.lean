import TcpFunnel.Zmalloc
import TcpFunnel.Library.Totals

/-!
# Runs of the counted allocator

A call that returns has found room for its header, so that no size it was
asked for wraps around.
-/

set_option autoImplicit false

namespace TcpFunnel.ZmallocRuns
open TcpFunnel.Zmalloc TcpFunnel.Totals

variable {h h' : ZHeap} {size : BitVec 64} {p q : ZPtr} {b : ZBlock}

theorem room_lt_iff : (size+prefixSize).toNat < 8 ↔ 18446744073709551616 ≤ size.toNat+8 := by
  unfold prefixSize
  have hsize := size.isLt
  rw [BitVec.toNat_add]
  simp
  omega

theorem room_eq (hfit : size.toNat+8 < 18446744073709551616) :
    (size+prefixSize).toNat = size.toNat+8 := by
  unfold prefixSize
  rw [BitVec.toNat_add]
  simp
  omega

theorem block_run (hb : h.blocks.get p = some b) : (block p).run h = .ok b h := by
  simp only [block, EStateM.run_bind, EStateM.run_get, hb]
  rfl

theorem block_ok (hrun : (block p).run h = .ok b h') : h.blocks.get p = some b ∧ h' = h := by
  simp only [block, EStateM.run_bind, EStateM.run_get] at hrun
  cases hb : h.blocks.get p with
  | none =>
    rw [hb] at hrun
    cases hrun
  | some b' =>
    rw [hb] at hrun
    cases hrun
    exact ⟨rfl, rfl⟩

theorem header_ok (hrun : (header p).run h = .ok size h') :
    ∃ b, h.blocks.get p = some b ∧ 8 ≤ b.room ∧ size = b.size ∧ h' = h := by
  unfold header at hrun
  rw [EStateM.run_bind] at hrun
  cases hblock : (block p).run h with
  | error e h₁ =>
    rw [hblock] at hrun
    cases hrun
  | ok b h₁ =>
    obtain ⟨hb,rfl⟩ := block_ok hblock
    rw [hblock] at hrun
    by_cases hroom : b.room < 8
    · simp only [if_pos hroom] at hrun
      cases hrun
    · simp only [if_neg hroom] at hrun
      cases hrun
      exact ⟨b, hb, Nat.le_of_not_lt hroom, rfl, rfl⟩

theorem setHeader_run (hb : h.blocks.get p = some b) (hroom : 8 ≤ b.room) :
    (setHeader p size).run h =
      .ok () { h with blocks := h.blocks.set p { b with size := size } } := by
  simp only [setHeader, EStateM.run_bind, block_run hb, if_neg (Nat.not_lt.mpr hroom)]
  rfl

theorem setHeader_short (hb : h.blocks.get p = some b) (hroom : b.room < 8) :
    (setHeader p size).run h = .error .overflow h := by
  simp only [setHeader, EStateM.run_bind, block_run hb, if_pos hroom]
  rfl

def obtained (h : ZHeap) (size : BitVec 64) (data : ℕ → UInt8)
    (rest : List (Option (ℕ → UInt8))) : ZHeap :=
  { h with
    usedMemory := h.usedMemory + padded (size+prefixSize)
    blocks := h.blocks.push ⟨size.toNat+8, size, data⟩
    answers := rest }

/-- A new block is only counted when it has room for its header. -/
theorem finish_ok {used : BitVec 64} {returns : Bool} {s : Store ZBlock}
    {rest : List (Option (ℕ → UInt8))} {old : BitVec 64} {data : ℕ → UInt8} (stat : Zmem Unit)
    (hrun : (do
        setHeader s.next size
        stat
        return s.next : Zmem ZPtr).run
      ⟨used, returns, s.push ⟨(size+prefixSize).toNat, old, data⟩, rest⟩ = .ok p h') :
    size.toNat+8 < 18446744073709551616 ∧
      (do stat; return s.next : Zmem ZPtr).run
        ⟨used, returns, s.push ⟨size.toNat+8, size, data⟩, rest⟩ = .ok p h' := by
  have hget : (ZHeap.mk used returns (s.push ⟨(size+prefixSize).toNat, old, data⟩)
      rest).blocks.get s.next = some ⟨(size+prefixSize).toNat, old, data⟩ := by simp
  rw [EStateM.run_bind] at hrun
  by_cases hroom : (size+prefixSize).toNat < 8
  · rw [setHeader_short hget hroom] at hrun
    cases hrun
  · have hfit := Nat.lt_of_not_le (mt room_lt_iff.mpr hroom)
    rw [setHeader_run hget (Nat.le_of_not_lt hroom)] at hrun
    simp only [Store.push_set, room_eq hfit] at hrun
    exact ⟨hfit, hrun⟩

theorem zmalloc_ok (hrun : (zmalloc size).run h = .ok p h') :
    ∃ bytes rest, h.answers = some bytes::rest ∧ size.toNat+8 < 18446744073709551616 ∧
      p = h.blocks.next ∧ h' = obtained h size bytes rest := by
  obtain ⟨used,returns,blocks,answers⟩ := h
  cases answers with
  | nil => cases hrun
  | cons a rest =>
    cases a with
    | none => cases returns <;> cases hrun
    | some bytes =>
      obtain ⟨hfit,hend⟩ := finish_ok _ hrun
      cases hend
      exact ⟨bytes, rest, rfl, hfit, rfl, rfl⟩

theorem zcalloc_ok (hrun : (zcalloc size).run h = .ok p h') :
    ∃ bytes rest, h.answers = some bytes::rest ∧ size.toNat+8 < 18446744073709551616 ∧
      p = h.blocks.next ∧ h' = obtained h size (fun _ => 0) rest := by
  obtain ⟨used,returns,blocks,answers⟩ := h
  cases answers with
  | nil => cases hrun
  | cons a rest =>
    cases a with
    | none => cases returns <;> cases hrun
    | some bytes =>
      obtain ⟨hfit,hend⟩ := finish_ok _ hrun
      cases hend
      exact ⟨bytes, rest, rfl, hfit, rfl, rfl⟩

def resized (b : ZBlock) (size : BitVec 64) (bytes : ℕ → UInt8) : ZBlock :=
  ⟨size.toNat+8, size, fun i => if i+8 < min b.room (size.toNat+8) then b.data i else bytes i⟩

def moved (h : ZHeap) (p : ZPtr) (b : ZBlock) (size : BitVec 64) (bytes : ℕ → UInt8)
    (rest : List (Option (ℕ → UInt8))) : ZHeap :=
  { h with
    usedMemory := h.usedMemory - padded b.size + padded size
    blocks := (h.blocks.free p).push (resized b size bytes)
    answers := rest }

theorem zrealloc_ok (hrun : (zrealloc (some p) size).run h = .ok q h') :
    ∃ b bytes rest, h.blocks.get p = some b ∧ h.answers = some bytes::rest ∧
      size.toNat+8 < 18446744073709551616 ∧ q = h.blocks.next ∧
      h' = moved h p b size bytes rest := by
  simp only [zrealloc] at hrun
  rw [EStateM.run_bind] at hrun
  cases hhead : (header p).run h with
  | error e h₁ =>
    rw [hhead] at hrun
    cases hrun
  | ok old h₁ =>
    obtain ⟨b,hb,-,rfl,rfl⟩ := header_ok hhead
    rw [hhead] at hrun
    obtain ⟨used,returns,blocks,answers⟩ := h₁
    simp only [realloc, EStateM.run_bind, block_run hb] at hrun
    cases answers with
    | nil => cases hrun
    | cons a rest =>
      cases a with
      | none => cases returns <;> cases hrun
      | some bytes =>
        have hfree : (free p).run ⟨used, returns, blocks, rest⟩ =
            .ok () ⟨used, returns, blocks.free p, rest⟩ := by
          simp only [free, EStateM.run_bind, block_run (h := ⟨used, returns, blocks, rest⟩) hb]
          rfl
        have hanswer : answer.run ⟨used, returns, blocks, some bytes::rest⟩ =
            .ok (some bytes) ⟨used, returns, blocks, rest⟩ := rfl
        simp only [hanswer, EStateM.run_bind, hfree] at hrun
        let count : Zmem Unit := do
          updateZmallocStatFree b.size
          updateZmallocStatAlloc size
        obtain ⟨hfit,hend⟩ := finish_ok (s := blocks.free p) count hrun
        cases hend
        refine ⟨b, bytes, rest, hb, rfl, hfit, rfl, ?_⟩
        simp only [moved, resized, room_eq hfit]

theorem zfree_ok (hrun : (zfree (some p)).run h = .ok () h') :
    ∃ b, h.blocks.get p = some b ∧ h' = { h with
      usedMemory := h.usedMemory - padded (b.size+prefixSize), blocks := h.blocks.free p } := by
  simp only [zfree] at hrun
  rw [EStateM.run_bind] at hrun
  cases hhead : (header p).run h with
  | error e h₁ =>
    rw [hhead] at hrun
    cases hrun
  | ok old h₁ =>
    obtain ⟨b,hb,-,rfl,rfl⟩ := header_ok hhead
    rw [hhead] at hrun
    have hfree : (free p).run { h₁ with usedMemory := h₁.usedMemory - padded (b.size+prefixSize) } =
        .ok () { h₁ with
          usedMemory := h₁.usedMemory - padded (b.size+prefixSize)
          blocks := h₁.blocks.free p } := by
      simp only [free, EStateM.run_bind, block_run (h := { h₁ with
        usedMemory := h₁.usedMemory - padded (b.size+prefixSize) }) hb]
      rfl
    have hrun' := hfree.symm.trans hrun
    cases hrun'
    exact ⟨b, hb, rfl⟩

def written (b : ZBlock) (off : ℕ) (bytes : List UInt8) : ZBlock :=
  { b with data := fun i => if off ≤ i then (bytes[i-off]?).getD (b.data i) else b.data i }

theorem memcpy_ok {off : ℕ} {bytes : List UInt8} (hrun : (memcpy p off bytes).run h = .ok () h') :
    ∃ b, h.blocks.get p = some b ∧ 8+off+bytes.length ≤ b.room ∧
      h' = { h with blocks := h.blocks.set p (written b off bytes) } := by
  unfold memcpy at hrun
  rw [EStateM.run_bind] at hrun
  cases hblock : (block p).run h with
  | error e h₁ =>
    rw [hblock] at hrun
    cases hrun
  | ok b h₁ =>
    obtain ⟨hb,rfl⟩ := block_ok hblock
    rw [hblock] at hrun
    by_cases hroom : b.room < 8+off+bytes.length
    · simp only [if_pos hroom] at hrun
      cases hrun
    · simp only [if_neg hroom] at hrun
      cases hrun
      exact ⟨b, hb, Nat.le_of_not_lt hroom, rfl⟩

inductive Call where
  | zmalloc (size : BitVec 64)
  | zcalloc (size : BitVec 64)
  | zrealloc (ptr : Option ZPtr) (size : BitVec 64)
  | zfree (ptr : Option ZPtr)
  | zstrdup (s : List UInt8)
  | store (p : ZPtr) (off : ℕ) (bytes : List UInt8)
  | zmallocSetOomHandler (returns : Bool)
  deriving Repr

def perform : Call → Zmem Unit
  | .zmalloc size => do let _ ← zmalloc size
  | .zcalloc size => do let _ ← zcalloc size
  | .zrealloc ptr size => do let _ ← zrealloc ptr size
  | .zfree ptr => zfree ptr
  | .zstrdup s => do let _ ← zstrdup s
  | .store p off bytes => memcpy p off bytes
  | .zmallocSetOomHandler returns => zmallocSetOomHandler returns

def performAll : List Call → Zmem Unit
  | [] => pure ()
  | c::cs => do
    perform c
    performAll cs

def begun (answers : List (Option (ℕ → UInt8))) : ZHeap where
  usedMemory := 0
  oomReturns := false
  blocks := Store.empty
  answers := answers

inductive Stepped (h : ZHeap) : Call → ZHeap → Prop
  | zmalloc {size : BitVec 64} {bytes rest} (hfit : size.toNat+8 < 18446744073709551616) :
      Stepped h (.zmalloc size) (obtained h size bytes rest)
  | zcalloc {size : BitVec 64} {rest} (hfit : size.toNat+8 < 18446744073709551616) :
      Stepped h (.zcalloc size) (obtained h size (fun _ => 0) rest)
  | zreallocNull {size : BitVec 64} {bytes rest} (hfit : size.toNat+8 < 18446744073709551616) :
      Stepped h (.zrealloc none size) (obtained h size bytes rest)
  | zrealloc {p : ZPtr} {b : ZBlock} {size : BitVec 64} {bytes rest} (hb : h.blocks.get p = some b)
      (hfit : size.toNat+8 < 18446744073709551616) :
      Stepped h (.zrealloc (some p) size) (moved h p b size bytes rest)
  | zfreeNull : Stepped h (.zfree none) h
  | zfree {p : ZPtr} {b : ZBlock} (hb : h.blocks.get p = some b) :
      Stepped h (.zfree (some p)) { h with
        usedMemory := h.usedMemory - padded (b.size+prefixSize), blocks := h.blocks.free p }
  | zstrdup {s bytes rest} (size : BitVec 64) (hsize : size = BitVec.ofNat 64 (s.length+1))
      (hfit : size.toNat+8 < 18446744073709551616) :
      Stepped h (.zstrdup s) (obtained h size
        (written ⟨size.toNat+8, size, bytes⟩ 0 ((s ++ [0]).take size.toNat)).data rest)
  | store {p : ZPtr} {b : ZBlock} {off bytes} (hb : h.blocks.get p = some b)
      (hroom : 8+off+bytes.length ≤ b.room) :
      Stepped h (.store p off bytes) { h with blocks := h.blocks.set p (written b off bytes) }
  | handler {returns} : Stepped h (.zmallocSetOomHandler returns) { h with oomReturns := returns }

theorem dropped_ok {α : Type} {x : Zmem α} (hrun : (do let _ ← x : Zmem Unit).run h = .ok () h') :
    ∃ a, x.run h = .ok a h' := by
  rw [EStateM.run_bind] at hrun
  cases hx : x.run h with
  | error e h₁ =>
    rw [hx] at hrun
    cases hrun
  | ok a h₁ =>
    rw [hx] at hrun
    cases hrun
    exact ⟨a, rfl⟩

theorem zstrdup_ok {s : List UInt8} (hrun : (zstrdup s).run h = .ok p h') :
    Stepped h (.zstrdup s) h' := by
  unfold zstrdup at hrun
  rw [EStateM.run_bind] at hrun
  cases hz : (zmalloc (BitVec.ofNat 64 (s.length+1))).run h with
  | error e h₁ =>
    rw [hz] at hrun
    cases hrun
  | ok q h₁ =>
    obtain ⟨bytes,rest,-,hfit,rfl,rfl⟩ := zmalloc_ok hz
    rw [hz] at hrun
    simp only [EStateM.run_bind] at hrun
    cases hm : (memcpy h.blocks.next 0
        ((s ++ [0]).take (BitVec.ofNat 64 (s.length+1)).toNat)).run
        (obtained h (BitVec.ofNat 64 (s.length+1)) bytes rest) with
    | error e h₂ =>
      rw [hm] at hrun
      cases hrun
    | ok u h₂ =>
      obtain ⟨b,hb,hroom,rfl⟩ := memcpy_ok hm
      rw [hm] at hrun
      cases hrun
      have hnew : b =
          ⟨(BitVec.ofNat 64 (s.length+1)).toNat+8, BitVec.ofNat 64 (s.length+1), bytes⟩ := by
        simpa [obtained, eq_comm] using hb
      subst hnew
      have hstep := @Stepped.zstrdup h s bytes rest (BitVec.ofNat 64 (s.length+1)) rfl hfit
      simp only [obtained, Store.push_set]
      exact hstep

theorem step_cases {c : Call} (hrun : (perform c).run h = .ok () h') : Stepped h c h' := by
  cases c with
  | zmalloc size =>
    obtain ⟨p,hrun⟩ := dropped_ok hrun
    obtain ⟨bytes,rest,-,hfit,-,rfl⟩ := zmalloc_ok hrun
    exact .zmalloc hfit
  | zcalloc size =>
    obtain ⟨p,hrun⟩ := dropped_ok hrun
    obtain ⟨bytes,rest,-,hfit,-,rfl⟩ := zcalloc_ok hrun
    exact .zcalloc hfit
  | zrealloc ptr size =>
    obtain ⟨q,hrun⟩ := dropped_ok hrun
    cases ptr with
    | none =>
      obtain ⟨bytes,rest,-,hfit,-,rfl⟩ := zmalloc_ok hrun
      exact .zreallocNull hfit
    | some p =>
      obtain ⟨b,bytes,rest,hb,-,hfit,-,rfl⟩ := zrealloc_ok hrun
      exact .zrealloc hb hfit
  | zfree ptr =>
    cases ptr with
    | none =>
      cases hrun
      exact .zfreeNull
    | some p =>
      obtain ⟨b,hb,rfl⟩ := zfree_ok hrun
      exact .zfree hb
  | zstrdup s =>
    obtain ⟨p,hrun⟩ := dropped_ok hrun
    exact zstrdup_ok hrun
  | store p off bytes =>
    obtain ⟨b,hb,hroom,rfl⟩ := memcpy_ok hrun
    exact .store hb hroom
  | zmallocSetOomHandler returns =>
    cases hrun
    exact .handler

end TcpFunnel.ZmallocRuns
