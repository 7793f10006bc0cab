import TcpFunnel.HandlerOwnership

/-!
# The files of the log handlers

A handler only writes to files that are named after its type, and files that are
named after different types are different. So the messages of a level that has
been given a path are kept apart from all others, and the errors always are.
-/

set_option autoImplicit false

namespace TcpFunnel.HandlerFiles
open TcpFunnel.Log TcpFunnel.LogNames
open TcpFunnel.HandlerTable (LogTable HandId)
open TcpFunnel.HandlerRuns TcpFunnel.HandlerOwnership TcpFunnel.Slots TcpFunnel.Reachability
open TcpFunnel.LogRuns (Entry LogCall uncut_short)
open TcpFunnel.LogRotation (init_type uncut nextCount_range)

variable {path f : CString} {type type' : ℤ} {tm : Tm} {t t' : LogTable} {s s' : HandlerUse}
variable {e : HandlerRuns.Event} {r r' : LogHandler} {o : Occasion} {entry : Entry}

theorem type_digits (hlo : 0 ≤ type) (hhi : type < 5) : '_' ∉ percentD type := by
  rw [percentD_nat hlo (by omega)]
  exact Nat.underscore_not_in_toDigits

theorem before_separator {α : Type*} [DecidableEq α] {sep : α} {a b f : List α} (ha : sep ∉ a)
    (hb : sep ∉ b) (hfa : a ++ [sep] <+: f) (hfb : b ++ [sep] <+: f) : a = b := by
  have htake : ∀ ds : List α, sep ∉ ds → ds ++ [sep] <+: f →
      f.takeWhile (· ≠ sep) = ds := by
    rintro ds hds ⟨rest,rfl⟩
    have hall : ∀ x ∈ ds, (decide (x ≠ sep)) = true := by
      intro x hx
      apply decide_eq_true
      rintro rfl
      exact hds hx
    rw [List.append_assoc, List.takeWhile_append_of_pos hall]
    simp
  exact (htake a ha hfa).symm.trans (htake b hb hfb)

theorem owns_type (hlo : 0 ≤ type) (hhi : type < 5) (hlo' : 0 ≤ type') (hhi' : type' < 5)
    (h : Owns path type f) (h' : Owns path type' f) : type = type' := by
  have hmixed : ∀ n : ℤ, path ++ "/error/".toList <+: f →
      ¬ path ++ "/log/".toList ++ percentD n ++ "_".toList <+: f := by
    rintro n ⟨rest,rfl⟩ h
    simp [List.append_assoc, List.prefix_append_right_inj] at h
  rcases h with ⟨rfl,h⟩ | h
  · rcases h' with ⟨rfl,-⟩ | h'
    · rfl
    · exact absurd h' (hmixed type' h)
  · rcases h' with ⟨rfl,h'⟩ | h'
    · exact absurd h (hmixed type h')
    · apply percentD_injective hlo (by omega) hlo' (by omega)
      obtain ⟨rest,rfl⟩ : path ++ "/log/".toList <+: f :=
        ((List.prefix_append ..).trans (List.prefix_append ..)).trans h
      rw [List.append_assoc, List.prefix_append_right_inj] at h h'
      exact before_separator (type_digits hlo hhi) (type_digits hlo' hhi') h h'

/-- The names are those of the type, as long as none is cut off. -/
structure Named (path : CString) (r : LogHandler) : Prop where
  filename : r.filename = [] ∨ Owns path r.type r.filename
  opened : ∀ f ∈ r.fp, f ≠ [] ∧ Owns path r.type f

theorem fixed_named {maxsize size : ℤ} (hshort : path.length+77 < xnetLognameLen)
    (hN : Named path r) (hfix : fixLogFilename maxsize path r size o = some r') :
    Named path r' := by
  unfold fixLogFilename at hfix
  split at hfix
  next =>
    cases hfix
    exact hN
  next tm htm =>
    have hperiod := (@uncut_short path r.type 0 tm hshort).1
    obtain ⟨hprint,hcopy⟩ := uncut hperiod
    simp only [hprint, hcopy] at hfix
    split at hfix
    next =>
      cases hfix
      exact ⟨.inr periodName_owned, by simp⟩
    next =>
      split at hfix
      next =>
        split at hfix
        next => cases hfix
        next c hc =>
          have hrotated := (@uncut_short path r.type c tm hshort).2
          obtain ⟨hprint',hcopy'⟩ := uncut hrotated
          simp only [hprint', hcopy'] at hfix
          cases hfix
          exact ⟨.inr rotatedName_owned, by simp⟩
      next =>
        cases hfix
        exact hN

theorem written_named (hN : Named path r) (entry : Entry) : Named path (entry.written r).1 ∧
    ∀ piece ∈ (entry.written r).2, Owns path r.type piece.1 := by
  have hstream : ∀ g ∈ r.fp.or (fopen r.filename entry.o.fopen), g ≠ [] ∧ Owns path r.type g := by
    intro g hg
    cases hfp : r.fp with
    | some k =>
      rw [hfp, Option.some_or] at hg
      cases hg
      exact hN.opened g hfp
    | none =>
      rw [hfp, Option.none_or, Option.mem_def, fopen] at hg
      split at hg
      next => cases hg
      next hopen =>
        cases hg
        have hne : r.filename ≠ [] := fun hnil => hopen (.inl hnil)
        exact ⟨hne, hN.filename.resolve_left hne⟩
  unfold Entry.written writeLog
  cases hopened : r.fp.or (fopen r.filename entry.o.fopen) with
  | none => exact ⟨hN, by simp⟩
  | some g =>
    obtain ⟨hne,hown⟩ := hstream g hopened
    have hopen : ∀ k ∈ some g, k ≠ [] ∧ Owns path r.type k := by
      intro k hk
      cases hk
      exact ⟨hne, hown⟩
    cases entry.o.fprintf with
    | none => exact ⟨⟨hN.filename, hopen⟩, by simpa using hown⟩
    | some k => exact ⟨⟨hN.filename, hopen⟩, by simpa using hown⟩

theorem init_named {now : Reading} (hshort : path.length+77 < xnetLognameLen) :
    Named path (initFilename path now (freshHandler type)) := by
  have hfresh : Named path (freshHandler type) := ⟨.inl rfl, by simp [freshHandler]⟩
  unfold initFilename
  split
  next => exact hfresh
  next tm htm =>
    have hperiod := (@uncut_short path type 0 tm hshort).1
    obtain ⟨hprint,hcopy⟩ := uncut hperiod
    have htype : (freshHandler type).type = type := rfl
    simp only [htype, hprint, hcopy]
    split
    next => exact ⟨.inr periodName_owned, by simp⟩
    next => exact hfresh

/-- Every handler keeps to the files of its type, and the lines that were logged by
one are in such files. -/
structure Filing (t : LogTable) (filed : List Filed) : Prop where
  named : ∀ h r, t.handlers.get h = some r → Named t.gPathBuf r
  err : ∀ h r, t.handler LogLevel.err.code = some h → t.handlers.get h = some r →
    r.type = LogLevel.err.code
  owned : ∀ p ∈ filed, Owns t.gPathBuf p.type p.file
  levels : ∀ p ∈ filed, ∃ c : LogCall, p.level = c.level
  all : filed.map (fun p => (p.file, p.line)) = t.appended

/-- The handler in the slot of a level has that type when the level has been given a
path or is that of the errors, and is the common one otherwise. -/
theorem slot_type {h : HandId} {c : LogCall} {file text : CString}
    (hT : Tabled s.table.handler s.table.handlers s.changed) (hF : Filing s.table s.filed)
    (hslot : s.table.handler c.level.code = some h) (hr : s.table.handlers.get h = some r) :
    Filed.type ⟨c.level, decide (c.level.code ∈ s.changed), file, text⟩ = r.type := by
  unfold Filed.type
  by_cases herr : c.level = .err
  · rw [if_pos (.inl herr), herr]
    rw [herr] at hslot
    exact (hF.err h r hslot hr).symm
  · have hlevel : Changeable c.level.code := by
      cases c with
      | err => exact absurd rfl herr
      | info | warn | debug => decide
    obtain ⟨q,hq,-,hor⟩ := hT.housed.housed hslot
    cases hr.symm.trans hq
    by_cases hown : c.level.code ∈ s.changed
    · obtain ⟨k,q,hat,hq,hhome⟩ := (hT.own _ hlevel).mpr hown
      cases hslot.symm.trans hat
      cases hr.symm.trans hq
      rw [if_pos (.inr (decide_eq_true hown)), hhome]
    · have hnot : r.type ≠ c.level.code := by
        intro hhome
        exact hown ((hT.own _ hlevel).mp ⟨h, r, hslot, hr, hhome⟩)
      have hnone : ¬ (c.level = .err ∨ decide (c.level.code ∈ s.changed) = true) := by
        simp [herr, hown]
      rw [if_neg hnone, hor.resolve_left hnot]

theorem filings_none (happ : t.appended = s.table.appended) : e.filings s t = [] := by
  cases e with
  | log c msg o => simp [Event.filings, happ]
  | setLogLevel | changeLogPath => rfl

theorem stepped_filing (hshort : s.table.gPathBuf.length+77 < xnetLognameLen)
    (hT : Tabled s.table.handler s.table.handlers s.changed) (hF : Filing s.table s.filed)
    (hstep : Stepped s.table e t) :
    Filing t (s.filed ++ e.filings s t) := by
  cases hstep with
  | quiet hnone _ isDebug =>
    have hfilings : e.filings s { s.table with isDebug := isDebug } = [] := filings_none rfl
    rw [hfilings, List.append_nil]
    exact ⟨hF.named, hF.err, hF.owned, hF.levels, hF.all⟩
  | @logged c msg o h r r' hpass hslot hr hfix =>
    let entry : Entry := ⟨c.level, msg, o.toOccasion⟩
    have htype : (entry.written r').1.type = r.type := by rw [written_type, fix_type hfix]
    obtain ⟨hN,howns⟩ := written_named (fixed_named hshort (hF.named h r hr) hfix) entry
    have hfilings : Event.filings s (logged s.table h r' entry o) (.log c (some msg) o) =
        (entry.written r').2.map fun piece =>
          ⟨c.level, decide (c.level.code ∈ s.changed), piece.1, piece.2⟩ := by
      simp [Event.filings, logged]
    have hpath : (logged s.table h r' entry o).gPathBuf = s.table.gPathBuf := logged_frame.2.1
    have hhandler : (logged s.table h r' entry o).handler = s.table.handler := logged_frame.1
    have hget : ∀ k q, (logged s.table h r' entry o).handlers.get k = some q →
        (k = h ∧ q = (entry.written r').1) ∨ (k ≠ h ∧ s.table.handlers.get k = some q) :=
      fun k q => (Store.set_some s.table.handlers h k _ q).mp
    rw [hfilings]
    exact {
      named := by
        intro k q hq
        rw [hpath]
        rcases hget k q hq with ⟨-,rfl⟩ | ⟨-,hq⟩
        · exact hN
        · exact hF.named k q hq
      err := by
        intro k q hk hq
        rw [hhandler] at hk
        rcases hget k q hq with ⟨rfl,rfl⟩ | ⟨-,hq⟩
        · exact htype.trans (hF.err k r hk hr)
        · exact hF.err k q hk hq
      owned := by
        intro p hp
        rw [hpath]
        rcases List.mem_append.mp hp with hp | hp
        · exact hF.owned p hp
        · obtain ⟨piece,hpiece,rfl⟩ := List.mem_map.mp hp
          rw [slot_type hT hF hslot hr, ← fix_type hfix]
          exact howns piece hpiece
      levels := by
        intro p hp
        rcases List.mem_append.mp hp with hp | hp
        · exact hF.levels p hp
        · obtain ⟨piece,-,rfl⟩ := List.mem_map.mp hp
          exact ⟨c, rfl⟩
      all := by
        rw [List.map_append, hF.all, List.map_map]
        show s.table.appended ++ (entry.written r').2.map id = _
        rw [List.map_id]
        rfl }
  | @changed level now hlevel =>
    have hfilings : Event.filings s (changed s.table level now)
      (.changeLogPath level true now) = [] := rfl
    rw [hfilings, List.append_nil]
    exact {
      named := by
        intro k q hq
        rcases (Store.push_some s.table.handlers k _ q).mp hq with ⟨-,rfl⟩ | ⟨-,hq⟩
        · exact init_named hshort
        · exact hF.named k q hq
      err := by
        intro k q hk hq
        have hk : s.table.handler LogLevel.err.code = some k := by
          have hne : LogLevel.err.code ≠ level := by
            have herr : LogLevel.err.code = 4 := rfl
            have hhi := hlevel.2
            omega
          exact (if_neg hne).symm.trans hk
        rcases (Store.push_some s.table.handlers k _ q).mp hq with ⟨rfl,-⟩ | ⟨-,hq⟩
        · obtain ⟨q',hq',-⟩ := hT.housed.housed hk
          exact absurd (hT.housed.wellFormed.lt hq') (Nat.lt_irrefl _)
        · exact hF.err k q hk hq
      owned := hF.owned
      levels := hF.levels
      all := hF.all }

theorem stepped_same (hstep : Stepped t e t') :
    t'.gPathBuf = t.gPathBuf ∧ t'.maxsize = t.maxsize := by
  cases hstep with
  | quiet => exact ⟨rfl, rfl⟩
  | logged => exact ⟨logged_frame.2.1, logged_frame.2.2.1⟩
  | changed => exact ⟨rfl, rfl⟩

theorem start_filing (h : handling.start s)
    (hshort : s.table.gPathBuf.length+77 < xnetLognameLen) : Filing s.table s.filed := by
  obtain ⟨filesize,isDebug,root,cwd,logDir,errorDir,calloc0,calloc4,now,links,t,hrun,rfl⟩ := h
  cases loggerInit_cases hrun with
  | bare path links =>
    exact {
      named := by rintro h r ⟨⟩
      err := by rintro h r ⟨⟩
      owned := by rintro p ⟨⟩
      levels := by rintro p ⟨⟩
      all := rfl }
  | inited maxsize isDebug path links =>
    exact {
      named := by
        intro h r hr
        rcases init_handlers.mp hr with ⟨-,rfl⟩ | ⟨-,rfl⟩
        · exact init_named hshort
        · exact init_named hshort
      err := by
        intro h r hslot hr
        have hlast : initSlots 4 = some h := hslot
        obtain ⟨q,hq,htype⟩ := init_slot hlast
        cases hr.symm.trans hq
        exact htype
      owned := by rintro p ⟨⟩
      levels := by rintro p ⟨⟩
      all := rfl }

theorem reaches_filing (h : Reachable handling s)
    (hshort : s.table.gPathBuf.length+77 < xnetLognameLen) : Filing s.table s.filed := by
  induction h with
  | start hs => exact start_filing hs hshort
  | step hr _ hstep ih =>
    obtain ⟨t,hstepped,rfl⟩ := proceed_cases hstep
    rw [(stepped_same hstepped).1] at hshort
    exact stepped_filing hshort (reaches_tabled hr) (ih hshort) hstepped

theorem filed_type {p : Filed} (hlevel : ∃ c : LogCall, p.level = c.level) :
    0 ≤ p.type ∧ p.type < 5 := by
  obtain ⟨c,hc⟩ := hlevel
  unfold Filed.type
  rw [hc]
  split
  · cases c <;> decide
  · decide

/-- Two lines in one file were logged by handlers of one type. -/
theorem files_apart (h : Reachable handling s)
    (hshort : s.table.gPathBuf.length+77 < xnetLognameLen) :
    (∀ p ∈ s.filed, ∀ q ∈ s.filed, p.file = q.file → p.type = q.type) ∧
    s.filed.map (fun p => (p.file, p.line)) = s.table.appended := by
  have hF := reaches_filing h hshort
  refine ⟨fun p hp q hq hfile => ?_, hF.all⟩
  obtain ⟨hlo,hhi⟩ := filed_type (hF.levels p hp)
  obtain ⟨hlo',hhi'⟩ := filed_type (hF.levels q hq)
  have howns := hF.owned p hp
  rw [hfile] at howns
  exact owns_type hlo hhi hlo' hhi' howns (hF.owned q hq)

theorem files_apart_info : ∃ s, Reachable handling s ∧ s.filed.map Filed.type = [0, 2] ∧
    ∀ p ∈ s.filed, ∀ q ∈ s.filed, p.file = q.file → p.type = q.type := by
  have hplay : (infoTwice.foldlM proceed started).map
      (fun s => (s.filed.map Filed.type, s.table.gPathBuf.length)) = some ([0, 2], 4) := by
    decide +kernel
  obtain ⟨s,hs,hvalues⟩ := Option.map_eq_some_iff.mp hplay
  obtain ⟨htypes,hlength⟩ := Prod.mk.inj hvalues
  have hr : Reachable handling s :=
    Reaches.foldlM (fun _ _ _ h => ⟨trivial, h⟩) (.start started_start) hs
  have hshort : s.table.gPathBuf.length+77 < xnetLognameLen := by
    rw [hlength]
    decide
  exact ⟨s, hr, htypes, (files_apart hr hshort).1⟩

end TcpFunnel.HandlerFiles
