import Mathlib.Data.List.Dedup
import TcpFunnel.HandlerRuns
import TcpFunnel.LogRotation

/-!
# The memory of the log handlers

The handlers that are shared by several slots are at home in the slot of their
type, and `x_log_free` goes through the slots downwards, so that it reads none
that it has already freed. A handler is lost when the path of its level is
changed again.
-/

set_option autoImplicit false

namespace TcpFunnel.HandlerOwnership
open TcpFunnel.BufferPool TcpFunnel.Log TcpFunnel.HandlerTable TcpFunnel.HandlerRuns
open TcpFunnel.Slots TcpFunnel.Reachability
open TcpFunnel.LogRuns (Entry LogCall)
open TcpFunnel.LogRotation (init_type)

variable {t t' : LogTable} {s s' : HandlerUse} {e : Event} {h : ℕ} {r : LogHandler} {i : ℤ}

abbrev HandlersHoused (t : LogTable) : Prop := Housed LogHandler.type 0 5 t.handler t.handlers

/-- Every handler is at home or lost, and the levels that have been given a path are
counted by the handlers that were made for them. -/
structure Tabled (slot : ℤ → Option HandId) (handlers : Store LogHandler) (changed : List ℤ) :
    Prop where
  housed : Housed LogHandler.type 0 5 slot handlers
  own : ∀ i, Changeable i → (Own LogHandler.type slot handlers i ↔ i ∈ changed)
  changeable : ∀ i ∈ changed, Changeable i
  lost : (lost LogHandler.type slot handlers).card + changed.toFinset.card = changed.length

theorem initSlots_some : initSlots i = some h ↔
    (0 ≤ i ∧ i < 4 ∧ h = 0) ∨ (i = 4 ∧ h = 1) := by
  unfold initSlots given
  split_ifs <;> simp <;> omega

theorem init_handlers {maxsize isDebug : ℤ} {path : CString} {now : Reading}
    {links : CString → Option CString} :
    (inited maxsize isDebug path now links).handlers.get h = some r ↔
      (h = 0 ∧ r = Log.initFilename path now (freshHandler 0)) ∨
      (h = 1 ∧ r = Log.initFilename path now (freshHandler 4)) := by
  have hnext : ∀ a : LogHandler, ((Store.empty : Store LogHandler).push a).next = 1 := fun _ => rfl
  have hempty : (Store.empty : Store LogHandler).next = 0 ∧
      (Store.empty : Store LogHandler).get h = none := ⟨rfl, rfl⟩
  show ((Store.empty.push _).push _).get h = some r ↔ _
  rw [Store.push_some, Store.push_some, hnext, hempty.1, hempty.2]
  constructor
  · rintro (hlast | ⟨-,hfirst | ⟨-,⟨⟩⟩⟩)
    · exact .inr hlast
    · exact .inl hfirst
  · rintro (⟨rfl,rfl⟩ | hlast)
    · exact .inr ⟨by decide, .inl ⟨rfl, rfl⟩⟩
    · exact .inl hlast

theorem init_slot {maxsize isDebug : ℤ} {path : CString} {now : Reading}
    {links : CString → Option CString} (hslot : initSlots i = some h) :
    ∃ r, (inited maxsize isDebug path now links).handlers.get h = some r ∧
      r.type = if i = 4 then 4 else 0 := by
  rcases initSlots_some.mp hslot with ⟨-,hi,rfl⟩ | ⟨rfl,rfl⟩
  · exact ⟨_, init_handlers.mpr (.inl ⟨rfl, rfl⟩), by rw [init_type, if_neg (by omega)]⟩
  · exact ⟨_, init_handlers.mpr (.inr ⟨rfl, rfl⟩), by rw [init_type, if_pos rfl]⟩

theorem init_housed {maxsize isDebug : ℤ} {path : CString} {now : Reading}
    {links : CString → Option CString} :
    HandlersHoused (inited maxsize isDebug path now links) where
  wellFormed := (Store.empty_wellFormed.push _).push _
  range := by
    intro i h hslot
    have hi := initSlots_some.mp hslot
    omega
  housed := by
    intro i h hslot
    obtain ⟨r,hr,htype⟩ := init_slot hslot
    refine ⟨r, hr, ?_, ?_⟩
    · show initSlots r.type = some h
      have hi := initSlots_some.mp hslot
      rw [initSlots_some, htype]
      split <;> omega
    · rw [htype]
      split
      next hi => exact .inl hi.symm
      next => exact .inr rfl

theorem start_tabled (h : handling.start s) :
    Tabled s.table.handler s.table.handlers s.changed := by
  obtain ⟨filesize,isDebug,root,cwd,logDir,errorDir,calloc0,calloc4,now,links,t,hrun,rfl⟩ := h
  cases loggerInit_cases hrun with
  | bare path links =>
    exact {
      housed := ⟨Store.empty_wellFormed, by rintro i h ⟨⟩, by rintro i h ⟨⟩⟩
      own := by
        intro i _
        constructor
        · rintro ⟨h,r,⟨⟩,-⟩
        · rintro ⟨⟩
      changeable := by rintro i ⟨⟩
      lost := rfl }
  | inited maxsize isDebug path links =>
    exact {
      housed := init_housed
      own := by
        intro i hi
        constructor
        · rintro ⟨h,r,hslot,hr,htype⟩
          obtain ⟨r',hr',htype'⟩ := init_slot hslot
          cases hr.symm.trans hr'
          unfold Changeable at hi
          split at htype' <;> omega
        · rintro ⟨⟩
      changeable := by rintro i ⟨⟩
      lost := by
        have hlost : lost LogHandler.type initSlots
            (inited maxsize isDebug path now links).handlers = ∅ := by
          ext h
          simp only [mem_lost init_housed.wellFormed, Finset.notMem_empty, iff_false]
          rintro ⟨r,hr,hne⟩
          apply hne
          rw [initSlots_some]
          rcases init_handlers.mp hr with ⟨rfl,rfl⟩ | ⟨rfl,rfl⟩
          · simp [init_type]
          · simp [init_type]
        exact congrArg (fun fin => fin.card + 0) hlost }

theorem stepped_tabled {changed : List ℤ} (hT : Tabled t.handler t.handlers changed)
    (hstep : Stepped t e t') : Tabled t'.handler t'.handlers (e.changes ++ changed) := by
  cases hstep with
  | quiet hnone _ isDebug =>
    rw [hnone]
    exact hT
  | @logged c msg o h r r' hpass hslot hr hfix =>
    have htype : ((⟨c.level, msg, o.toOccasion⟩ : Entry).written r').1.type = r.type := by
      rw [written_type, fix_type hfix]
    rw [logged_frame.1]
    exact {
      housed := hT.housed.set hr htype
      own := fun i hi => (own_set hr htype).trans (hT.own i hi)
      changeable := hT.changeable
      lost := (congrArg (·.card + _) (lost_set hT.housed hr htype)).trans hT.lost }
  | @changed level now hlevel =>
    have htype : (Log.initFilename t.gPathBuf now (freshHandler level)).type = level := init_type
    have hchanges : (Event.changeLogPath level true now).changes = [level] := if_pos hlevel
    have hhi : level < 5 := Int.lt_trans hlevel.2 (by decide)
    rw [hchanges, List.singleton_append]
    exact {
      housed := hT.housed.given hlevel.1 hhi htype
      own := by
        intro i hi
        rw [List.mem_cons, ← hT.own i hi]
        exact own_given hT.housed htype
      changeable := by
        intro i hi
        rcases List.mem_cons.mp hi with rfl | hi
        · exact hlevel
        · exact hT.changeable i hi
      lost := by
        have hlost := hT.lost
        by_cases hagain : level ∈ changed
        · obtain ⟨k,q,hslot,hq,hhome⟩ := (hT.own level hlevel).mpr hagain
          have hhere : k ∉ lost LogHandler.type t.handler t.handlers := by
            rw [mem_lost hT.housed.wellFormed]
            rintro ⟨q',hq',hne⟩
            cases hq.symm.trans hq'
            exact hne (hhome ▸ hslot)
          have hcard := congrArg Finset.card (lost_given_own hT.housed hslot hq hhome htype)
          rw [Finset.card_insert_of_notMem hhere] at hcard
          refine (congrArg (· + _) hcard).trans ?_
          rw [List.toFinset_cons, Finset.insert_eq_of_mem (List.mem_toFinset.mpr hagain),
            List.length_cons]
          omega
        · have hnot := mt (hT.own level hlevel).mp hagain
          have hcard := congrArg Finset.card (lost_given hT.housed hnot htype)
          refine (congrArg (· + _) hcard).trans ?_
          rw [List.toFinset_cons, Finset.card_insert_of_notMem (mt List.mem_toFinset.mp hagain),
            List.length_cons]
          omega }

theorem reaches_tabled (h : Reachable handling s) :
    Tabled s.table.handler s.table.handlers s.changed := by
  apply h.invariant fun s => Tabled s.table.handler s.table.handlers s.changed
  · exact fun _ => start_tabled
  · intro s e s' _ hT _ hstep
    obtain ⟨t,hstepped,rfl⟩ := proceed_cases hstep
    exact stepped_tabled hT hstepped

def left (t : LogTable) (n : ℤ) : LogTable :=
  { t with handlers := swept LogHandler.type t.handler t.handlers n }

theorem freeSlot_own (hslot : t.handler i = some h) (hr : t.handlers.get h = some r)
    (htype : r.type = i) :
    (freeSlot i).run t = .ok () { t with handlers := t.handlers.free h } := by
  simp only [freeSlot, EStateM.run_bind, EStateM.run_get, hslot, hand_run hr]
  rw [if_pos htype]
  by_cases hopen : r.fp.isSome
  · let closed : LogTable := { t with handlers := t.handlers.set h { r with fp := none } }
    have hclosed : closed.handlers.get h = some { r with fp := none } := by simp [closed]
    rw [if_pos hopen]
    simp only [EStateM.run_bind, setHand_run hr]
    have hread := hand_run hclosed
    simp only [closed] at hread
    simp only [hread]
    show EStateM.Result.ok () { t with handlers := (t.handlers.set h _).free h } = _
    rw [Store.set_free]
  · rw [if_neg hopen]
    simp only [EStateM.run_bind, hand_run hr]
    rfl

theorem freeSlot_shared (hslot : t.handler i = some h) (hr : t.handlers.get h = some r)
    (htype : r.type ≠ i) : (freeSlot i).run t = .ok () t := by
  simp only [freeSlot, EStateM.run_bind, EStateM.run_get, hslot, hand_run hr]
  rw [if_neg htype]
  rfl

theorem freeSlot_empty (hslot : t.handler i = none) : (freeSlot i).run t = .ok () t := by
  simp only [freeSlot, EStateM.run_bind, EStateM.run_get, hslot]
  rfl

theorem freeSlot_run (hH : HandlersHoused t) (i : ℤ) :
    (freeSlot i).run (left t (i+1)) = .ok () (left t i) := by
  have hsame : ¬ Own LogHandler.type t.handler t.handlers i → left t (i+1) = left t i := by
    intro hnot
    rw [left, swept_other hnot]
    rfl
  cases hslot : t.handler i with
  | none =>
    have hnot : ¬ Own LogHandler.type t.handler t.handlers i := by
      rintro ⟨h,r,hat,-⟩
      cases hslot.symm.trans hat
    have hread : (left t (i+1)).handler i = none := hslot
    rw [freeSlot_empty hread, hsame hnot]
  | some h =>
    obtain ⟨r,hr,hlive,-⟩ := swept_live hH hslot
    have hread : (left t (i+1)).handler i = some h := hslot
    by_cases htype : r.type = i
    · rw [freeSlot_own hread hlive htype, left, left, ← swept_own hslot hr htype]
    · have hnot : ¬ Own LogHandler.type t.handler t.handlers i := by
        rintro ⟨k,q,hat,hq,hhome⟩
        cases hslot.symm.trans hat
        cases hr.symm.trans hq
        exact htype hhome
      rw [freeSlot_shared hread hlive htype, hsame hnot]

theorem freeSlots_run (hH : HandlersHoused t) (n : ℕ) :
    (freeSlots n).run (left t n) = .ok () (left t 0) := by
  induction n with
  | zero => rfl
  | succ n ih =>
    rw [freeSlots, EStateM.run_bind]
    push_cast
    rw [freeSlot_run hH n]
    exact ih

/-- `x_log_free` reads no handler that has been freed and frees none twice. It
closes and frees every handler in the table, and all handlers when no level has
been given a path more than once. -/
theorem handlers_freed (h : Reachable handling s) : ∃ t, xLogFree.run s.table = .ok () t ∧
    (∀ i h, s.table.handler i = some h → t.handlers.get h = none) ∧
    ((∀ h, t.handlers.get h = none) ↔ s.changed.Nodup) := by
  have hT := reaches_tabled h
  have hfull : left s.table 5 = s.table := by
    rw [left, swept_top hT.housed]
  refine ⟨left s.table 0, ?_, ?_, ?_⟩
  · have hrun := freeSlots_run hT.housed 5
    push_cast at hrun
    rwa [hfull] at hrun
  · intro i h hslot
    obtain ⟨r,hr,hat,-⟩ := hT.housed.housed hslot
    show (swept LogHandler.type s.table.handler s.table.handlers 0).get h = none
    rw [swept_get, if_pos ⟨r, hr, (hT.housed.range hat).1, hat⟩]
  · have hlost := hT.lost
    have hnone : (∀ h, (left s.table 0).handlers.get h = none) ↔
        lost LogHandler.type s.table.handler s.table.handlers = ∅ := by
      rw [Finset.eq_empty_iff_forall_notMem]
      apply forall_congr'
      intro h
      rw [← swept_left hT.housed, ← Option.ne_none_iff_exists', not_not]
      rfl
    have hnodup : s.changed.Nodup ↔ s.changed.toFinset.card = s.changed.length := by
      rw [List.card_toFinset, ← List.dedup_eq_self]
      exact ⟨congrArg List.length, (List.dedup_sublist _).eq_of_length⟩
    rw [hnone, hnodup, ← Finset.card_eq_zero]
    omega

def noon : Answer where
  now := ⟨0, some ⟨0, 0, 12, 4, 4, 123⟩⟩
  stats := []
  fopen := true
  fprintf := none
  date := ⟨0, 0, 12, 4, 4, 123⟩
  pid := 1
  unlink := true
  link := true

def started : HandlerUse where
  table := inited 104857600 1 "/srv".toList noon.now fun _ => none
  changed := []
  filed := []

theorem started_start : handling.start started :=
  ⟨100, 1, some "/srv".toList, [], true, true, true, true, noon.now, fun _ => none, _,
    loggerInit_run, rfl⟩

def infoTwice : List HandlerRuns.Event :=
  [.log .info (some "a".toList) noon, .changeLogPath 2 true noon.now,
    .log .info (some "b".toList) noon, .changeLogPath 2 true noon.now]

theorem handlers_freed_infoTwice : ∃ s t, Reachable handling s ∧ s.changed = [2, 2] ∧
    xLogFree.run s.table = .ok () t ∧ ¬ ∀ h, t.handlers.get h = none := by
  have hplay : (infoTwice.foldlM proceed started).map (·.changed) = some [2, 2] := by
    decide +kernel
  obtain ⟨s,hs,hchanged⟩ := Option.map_eq_some_iff.mp hplay
  have hr : Reachable handling s :=
    Reaches.foldlM (fun _ _ _ h => ⟨trivial, h⟩) (.start started_start) hs
  obtain ⟨t,hrun,-,hall⟩ := handlers_freed hr
  refine ⟨s, t, hr, hchanged, hrun, ?_⟩
  rw [hall, hchanged]
  decide

end TcpFunnel.HandlerOwnership
