import TcpFunnel.LogRuns
import TcpFunnel.Library.Appends

/-!
# The size of the log files

A handler reckons the size of its file, and goes on to a file that is not there
when the next line might not fit. The errors are rotated into the other
directory, so that the next error of the day goes back to the first file.
-/

set_option autoImplicit false

namespace TcpFunnel.LogRotation
open TcpFunnel.CInt TcpFunnel.Log TcpFunnel.LogNames TcpFunnel.LogRuns
open TcpFunnel.Appends TcpFunnel.Reachability

/-- An error does not go back to a file that has been rotated away, the counters
stay within an `int`, the whole line is written, and the clock can be read when
the file is due for rotation. -/
structure Tracked (s : LogUse) (entry : Entry) : Prop where
  ahead : entry.level = .err → ∀ p ∈ entry.period s.logger, p ∈ s.periods entry.level →
    p <+: (entry.hand s.logger).filename
  cursize : (entry.hand s.logger).cursize+entry.size < 2147483648
  count : (entry.hand s.logger).count+entry.o.stats.length < 2147483648
  whole : entry.o.fprintf = none
  timed : entry.o.now.tm = none → (entry.hand s.logger).cursize+entry.size < s.logger.maxsize

def Used (path : CString) (type : ℤ) (ps : List CString) (count : ℤ) (f : CString) : Prop :=
  f ∈ ps ∨ ∃ tm c, 0 < c ∧ c ≤ count ∧ f = rotatedName path type tm c

/-- The size of the current file is reckoned in full, and every other file of
the handler has a name that it does not use again. -/
structure Kept (path : CString) (hand : LogHandler) (ps : List CString)
    (log : List (CString × List Char)) : Prop where
  opened : ∀ f ∈ hand.fp, f = hand.filename ∧ f ≠ []
  count : 0 ≤ hand.count
  counted : ((contents log hand.filename).length : ℤ) ≤ hand.cursize
  periods : ∀ p ∈ ps, ∃ tm, p = periodName path hand.type tm
  current : hand.filename = [] ∨ Used path hand.type ps hand.count hand.filename
  used : ∀ f, Owns path hand.type f → contents log f ≠ [] →
    Used path hand.type ps hand.count f
  last : hand.type ≠ LogLevel.err.code → ∀ p ∈ ps.getLast?, p <+: hand.filename

variable {path f : CString} {type count count' c : ℤ} {ps ps' : List CString} {tm : Tm}
variable {hand hand' : LogHandler} {log : List (CString × List Char)} {l : Logger}
variable {entry : Entry} {s t : LogUse}

theorem Used.mono (h : Used path type ps count f) (hps : ps ⊆ ps') (hcount : count ≤ count') :
    Used path type ps' count' f := by
  rcases h with h | ⟨tm,c,hlo,hhi,rfl⟩
  · exact .inl (hps h)
  · exact .inr ⟨tm, c, hlo, Int.le_trans hhi hcount, rfl⟩

theorem Kept.owned (hK : Kept path hand ps log) (h : Used path hand.type ps hand.count f) :
    Owns path hand.type f := by
  rcases h with h | ⟨tm,c,-,-,rfl⟩
  · obtain ⟨tm,rfl⟩ := hK.periods f h
    exact periodName_owned
  · exact rotatedName_owned

theorem Kept.fresh_period (hK : Kept path hand ps log) (hcount : hand.count < 2147483648)
    (hnew : periodName path hand.type tm ∉ ps) :
    contents log (periodName path hand.type tm) = [] := by
  by_contra hfull
  rcases hK.used _ periodName_owned hfull with h | ⟨tm',c,hlo,hhi,hname⟩
  · exact hnew h
  · exact rotatedName_ne_periodName (by omega) (by omega) hname.symm

theorem Kept.fresh_rotated (hK : Kept path hand ps log) (tm : Tm) (hlo : hand.count < c)
    (hhi : c < 2147483648) : contents log (rotatedName path hand.type tm c) = [] := by
  have hpos := hK.count
  by_contra hfull
  rcases hK.used _ rotatedName_owned hfull with h | ⟨tm',c',hlo',hhi',hname⟩
  · obtain ⟨tm',hname⟩ := hK.periods _ h
    exact rotatedName_ne_periodName (by omega) hhi hname
  · have hsame := rotatedName_injective (by omega) hhi (by omega) (by omega) hname
    omega

theorem Kept.frame {later : List (CString × List Char)} (hK : Kept path hand ps log)
    (hother : ∀ piece ∈ later, piece.1 ≠ [] ∧ ¬ Owns path hand.type piece.1) :
    Kept path hand ps (log ++ later) := by
  have hsame : ∀ f, f = [] ∨ Owns path hand.type f →
      contents (log ++ later) f = contents log f := by
    intro f hf
    apply contents_frame
    rintro piece hpiece rfl
    obtain ⟨hne,hnot⟩ := hother piece hpiece
    exact hf.elim hne hnot
  refine ⟨hK.opened, hK.count, ?_, hK.periods, hK.current, fun f hf hfull => ?_, hK.last⟩
  · rw [hsame _ (hK.current.imp_right hK.owned)]
    exact hK.counted
  · rw [hsame f (.inr hf)] at hfull
    exact hK.used f hf hfull

theorem Kept.read (hK : Kept path hand ps log)
    (hps : ∀ p ∈ ps', ∃ tm, p = periodName path hand.type tm)
    (hlast : hand.type ≠ LogLevel.err.code → ∀ p ∈ (ps ++ ps').getLast?, p <+: hand.filename) :
    Kept path hand (ps ++ ps') log where
  opened := hK.opened
  count := hK.count
  counted := hK.counted
  periods p hp := (List.mem_append.mp hp).elim (hK.periods p) (hps p)
  current := hK.current.imp_right (·.mono (List.subset_append_left ..) (Int.le_refl _))
  used f hf hfull := (hK.used f hf hfull).mono (List.subset_append_left ..) (Int.le_refl _)
  last := hlast

theorem Kept.moved {n : ℤ} (hK : Kept path hand ps log) (hempty : contents log f = [])
    (hcount : hand.count ≤ count) (hn : 0 ≤ n)
    (hps : ∀ p ∈ ps', ∃ tm, p = periodName path hand.type tm)
    (hused : Used path hand.type (ps ++ ps') count f)
    (hlast : hand.type ≠ LogLevel.err.code → ∀ p ∈ (ps ++ ps').getLast?, p <+: f) :
    Kept path ⟨hand.type, f, none, count, n⟩ (ps ++ ps') log where
  opened := by simp
  count := Int.le_trans hK.count hcount
  counted := by
    rw [hempty]
    exact hn
  periods p hp := (List.mem_append.mp hp).elim (hK.periods p) (hps p)
  current := .inr hused
  used g hg hfull := (hK.used g hg hfull).mono (List.subset_append_left ..) hcount
  last := hlast

theorem nextCount_range {maxsize : ℤ} {stats : List (Option ℤ)}
    (h : nextCount maxsize count stats = some c) (hlo : 0 ≤ count)
    (hhi : count+stats.length < 2147483648) : ∃ i < stats.length, c = count+1+i := by
  induction stats generalizing count with
  | nil => cases h
  | cons stat rest ih =>
    rw [List.length_cons] at hhi ⊢
    push_cast at hhi
    have hnext : cInt (count+1) = count+1 := cInt_small (by omega) (by omega)
    rw [nextCount, hnext] at h
    split at h
    · obtain ⟨i,hi,hc⟩ := ih h (by omega) (by omega)
      exact ⟨i+1, by omega, by push_cast; omega⟩
    · cases h
      exact ⟨0, by omega, by simp⟩

theorem uncut (h : f.length < xnetLognameLen) : snprintf xnetLognameLen f = f ∧
    strncpy filenameMax f = f := by
  unfold xnetLognameLen at h
  constructor
  · exact List.take_of_length_le (Nat.le_sub_one_of_lt h)
  · exact List.take_of_length_le (by unfold filenameMax; omega)

inductive Fixed (l : Logger) (entry : Entry) : LogHandler → Prop
  | unread (hnow : entry.o.now.tm = none) : Fixed l entry (entry.hand l)
  | changed {p : CString} (hp : entry.period l = some p) (hnot : ¬ p <+: (entry.hand l).filename) :
      Fixed l entry { entry.hand l with filename := p, fp := none }
  | rotated {tm : Tm} {c : ℤ} (hnow : entry.o.now.tm = some tm) (hlo : (entry.hand l).count < c)
      (hhi : c ≤ (entry.hand l).count+entry.o.stats.length) :
      Fixed l entry { entry.hand l with
        filename := rotatedName l.gPathBuf (entry.hand l).type tm c
        fp := none, count := c, cursize := 0 }
  | stays {p : CString} (hp : entry.period l = some p) (hin : p <+: (entry.hand l).filename)
      (hroom : (entry.hand l).cursize+entry.size < l.maxsize) : Fixed l entry (entry.hand l)

theorem fixed_cases (hP : entry.Proper s) (hT : Tracked s entry)
    (hcount : 0 ≤ (entry.hand s.logger).count) (hcursize : 0 ≤ (entry.hand s.logger).cursize)
    (h : entry.fixed s.logger = some hand') : Fixed s.logger entry hand' := by
  have hsize : 0 ≤ entry.size := by
    unfold Entry.size
    omega
  have hint : cInt ((entry.hand s.logger).cursize+cInt entry.size) =
      (entry.hand s.logger).cursize+entry.size := by
    have hcursize' := hT.cursize
    rw [cInt_small hsize (by omega), cInt_small (by omega) hcursize']
  unfold Entry.fixed fixLogFilename at h
  cases hnow : entry.o.now.tm with
  | none =>
    simp only [hnow] at h
    cases h
    exact .unread hnow
  | some tm =>
    have hp : entry.period s.logger =
        some (periodName s.logger.gPathBuf (entry.hand s.logger).type tm) := by
      simp [Entry.period, hnow]
    obtain ⟨hprint,hcopy⟩ := uncut (hP.period _ hp)
    simp only [hnow, hprint, hcopy, hint] at h
    split at h
    next hnot =>
      cases h
      exact .changed hp hnot
    next hin =>
      split at h
      next hdue =>
        cases hnext : nextCount s.logger.maxsize (entry.hand s.logger).count entry.o.stats with
        | none =>
          rw [hnext] at h
          cases h
        | some c =>
          rw [hnext] at h
          obtain ⟨i,hi,rfl⟩ := nextCount_range hnext hcount hT.count
          obtain ⟨hprint',hcopy'⟩ := uncut (hP.rotated tm hnow i hi)
          simp only [hprint', hcopy'] at h
          cases h
          exact .rotated hnow (by omega) (by omega)
      next hroom =>
        cases h
        have hshort := hP.short
        exact .stays hp (not_not.mp hin) (by omega)

theorem fixed_kept (hP : entry.Proper s) (hT : Tracked s entry)
    (htype : (entry.hand s.logger).type = LogLevel.err.code → entry.level = .err)
    (hK : Kept s.logger.gPathBuf (entry.hand s.logger) (s.periods entry.level) log)
    (hF : Fixed s.logger entry hand') :
    Kept s.logger.gPathBuf hand'
      (s.periods entry.level ++ (entry.period s.logger).toList) log ∧
    (contents log hand'.filename).length+entry.size ≤ s.logger.maxsize ∧
    hand'.cursize+entry.size < 2147483648 ∧ hand'.type = (entry.hand s.logger).type := by
  have hperiods : ∀ p ∈ (entry.period s.logger).toList,
      ∃ tm, p = periodName s.logger.gPathBuf (entry.hand s.logger).type tm := by
    intro p hp
    obtain ⟨tm,-,rfl⟩ := Option.map_eq_some_iff.mp (Option.mem_toList.mp hp)
    exact ⟨tm, rfl⟩
  have hcounted := hK.counted
  have hlast : ∀ p, entry.period s.logger = some p →
      ∀ q ∈ (s.periods entry.level ++ (entry.period s.logger).toList).getLast?, q = p := by
    intro p hp q hq
    simpa [hp, eq_comm] using hq
  cases hF with
  | unread hnow =>
    have hnone : entry.period s.logger = none := by simp [Entry.period, hnow]
    have htimed := hT.timed hnow
    refine ⟨?_, by omega, hT.cursize, rfl⟩
    simpa [hnone] using hK
  | @stays p hp hin hroom =>
    refine ⟨hK.read hperiods fun _ q hq => ?_, by omega, hT.cursize, rfl⟩
    cases hlast p hp q hq
    exact hin
  | @changed p hp hnot =>
    obtain ⟨tm,rfl⟩ := hperiods p (by simp [hp])
    have hnew : periodName s.logger.gPathBuf (entry.hand s.logger).type tm ∉
        s.periods entry.level := by
      intro hmem
      by_cases herr : (entry.hand s.logger).type = LogLevel.err.code
      · exact hnot (hT.ahead (htype herr) _ hp hmem)
      · exact hnot (hK.last herr _ (hP.onward _ hp hmem))
    have hcount := hT.count
    have hempty := hK.fresh_period (by omega) hnew
    have hshort := hP.short
    refine ⟨?_, ?_, hT.cursize, rfl⟩
    · apply hK.moved hempty (Int.le_refl _) (by omega) hperiods
      · exact .inl (List.mem_append_right _ (by simp [hp]))
      · intro _ q hq
        cases hlast _ hp q hq
        exact List.prefix_rfl
    · simp only [hempty, List.length_nil]
      omega
  | @rotated tm c hnow hlo hhi =>
    have hp : entry.period s.logger =
        some (periodName s.logger.gPathBuf (entry.hand s.logger).type tm) := by
      simp [Entry.period, hnow]
    have hcount := hT.count
    have hpos := hK.count
    have hempty := hK.fresh_rotated tm hlo (by omega)
    have hshort := hP.short
    have hcursize := hT.cursize
    refine ⟨?_, ?_, by simp only; omega, rfl⟩
    · apply hK.moved hempty (Int.le_of_lt hlo) (Int.le_refl _) hperiods
      · exact .inr ⟨tm, c, by omega, Int.le_refl _, rfl⟩
      · intro herr q hq
        cases hlast _ hp q hq
        simp only [periodName, if_neg herr]
        exact norName_isPrefix
    · simp only [hempty, List.length_nil]
      omega

theorem stream_current (hK : Kept path hand ps log) {answer : Bool}
    (h : hand.fp.or (fopen hand.filename answer) = some f) : f = hand.filename ∧ f ≠ [] := by
  cases hfp : hand.fp with
  | some g =>
    rw [hfp, Option.some_or] at h
    cases h
    exact hK.opened f hfp
  | none =>
    rw [hfp, Option.none_or] at h
    unfold fopen at h
    split at h
    · cases h
    next hopen =>
      cases h
      exact ⟨rfl, fun hnil => hopen (.inl hnil)⟩

theorem written_kept {most : ℕ} (hK : Kept path hand ps log) (hB : Bounded most log)
    (hwhole : entry.o.fprintf = none)
    (hroom : (contents log hand.filename).length+entry.size ≤ most)
    (hint : hand.cursize+entry.size < 2147483648) :
    Kept path (entry.written hand).1 ps (log ++ (entry.written hand).2) ∧
    Bounded most (log ++ (entry.written hand).2) ∧ (entry.written hand).1.type = hand.type ∧
    ∀ piece ∈ (entry.written hand).2, piece.1 ≠ [] ∧ Owns path hand.type piece.1 := by
  unfold Entry.written writeLog
  cases hstream : hand.fp.or (fopen hand.filename entry.o.fopen) with
  | none => simpa using ⟨hK, hB⟩
  | some f =>
    obtain ⟨rfl,hne⟩ := stream_current hK hstream
    have hlen := @line_length entry.o.date entry.level entry.o.pid entry.msg
    have hcounted := hK.counted
    unfold Entry.size at hroom hint
    have hown : Owns path hand.type hand.filename := hK.owned (hK.current.resolve_left hne)
    simp only [hwhole, true_and]
    refine ⟨⟨?_, hK.count, ?_, hK.periods, hK.current, fun g hg hfull => ?_, hK.last⟩, ?_, ?_⟩
    · rintro f ⟨⟩
      exact ⟨rfl, hne⟩
    · simp only [contents_snoc_same, List.length_append]
      rw [cInt_small (by omega) (by omega)]
      push_cast
      omega
    · by_cases hg' : hand.filename = g
      · exact hg' ▸ hK.current.resolve_left hne
      · rw [contents_snoc_other hg'] at hfull
        exact hK.used g hg hfull
    · exact hB.snoc (by omega)
    · rintro piece hpiece
      cases List.mem_singleton.mp hpiece
      exact ⟨hne, hown⟩

structure Rotating (s : LogUse) : Prop where
  positive : 0 < s.logger.maxsize
  norType : s.logger.normal.type = 0
  errType : s.logger.err.type = LogLevel.err.code
  nor : Kept s.logger.gPathBuf s.logger.normal s.norPeriods s.logger.appended
  err : Kept s.logger.gPathBuf s.logger.err s.errPeriods s.logger.appended
  bounded : Bounded s.logger.maxsize.toNat s.logger.appended

theorem logged_rotating (hR : Rotating s) (hP : entry.Proper s) (hT : Tracked s entry)
    (hfixed : entry.fixed s.logger = some hand) :
    Rotating { s.read (entry.period s.logger).toList entry.level with
      logger := { s.logger.setHandler (entry.written hand).1 entry.level with
        appended := s.logger.appended ++ (entry.written hand).2 } } := by
  have hshort := hP.short
  have hK : Kept s.logger.gPathBuf (entry.hand s.logger) (s.periods entry.level)
      s.logger.appended := by
    by_cases herr : entry.level = .err
    · rw [Entry.hand, herr]
      exact hR.err
    · rw [Entry.hand, handler_normal herr, periods_normal herr]
      exact hR.nor
  have htype : (entry.hand s.logger).type = LogLevel.err.code → entry.level = .err := by
    intro h
    by_contra herr
    rw [Entry.hand, handler_normal herr, hR.norType] at h
    exact absurd h (by decide)
  have hcounted := hK.counted
  obtain ⟨hK',hroom,hint,hsame⟩ :=
    fixed_kept hP hT htype hK (fixed_cases hP hT hK.count (by omega) hfixed)
  have hsize : 0 ≤ entry.size := by
    unfold Entry.size
    omega
  obtain ⟨hK'',hB,hsame',hown⟩ :=
    written_kept hK' hR.bounded hT.whole (by omega) hint
  rw [hsame] at hsame' hown
  by_cases herr : entry.level = .err
  · have htype' : (entry.hand s.logger).type = LogLevel.err.code := by
      rw [Entry.hand, herr]
      exact hR.errType
    have hnor : Kept s.logger.gPathBuf s.logger.normal s.norPeriods
        (s.logger.appended ++ (entry.written hand).2) := by
      apply hR.nor.frame
      intro piece hpiece
      obtain ⟨hne,howns⟩ := hown piece hpiece
      rw [htype'] at howns
      rw [hR.norType]
      exact ⟨hne, fun hnor => owned_apart hnor howns⟩
    rw [herr] at hK'' ⊢
    exact ⟨hR.positive, hR.norType, hsame'.trans htype', hnor, hK'', hB⟩
  · have htype' : (entry.hand s.logger).type = 0 := by
      rw [Entry.hand, handler_normal herr]
      exact hR.norType
    have herr' : Kept s.logger.gPathBuf s.logger.err s.errPeriods
        (s.logger.appended ++ (entry.written hand).2) := by
      apply hR.err.frame
      intro piece hpiece
      obtain ⟨hne,howns⟩ := hown piece hpiece
      rw [htype'] at howns
      rw [hR.errType]
      exact ⟨hne, owned_apart howns⟩
    rw [setHandler_normal herr, read_normal herr]
    rw [periods_normal herr] at hK''
    exact ⟨hR.positive, hsame'.trans htype', hR.errType, hK'', herr', hB⟩

theorem proceed_rotating {e : Event} (hR : Rotating s)
    (hP : ∀ entry ∈ e.entry s.logger, entry.Proper s)
    (hT : ∀ entry ∈ e.entry s.logger, Tracked s entry) (h : proceed s e = some t) :
    Rotating t := by
  unfold proceed at h
  cases hrun : e.run s.logger with
  | none =>
    rw [hrun] at h
    cases h
  | some l =>
    rw [hrun] at h
    cases run_cases hrun with
    | quiet hnone isDebug =>
      simp only [hnone] at h
      cases h
      exact ⟨hR.positive, hR.norType, hR.errType, hR.nor, hR.err, hR.bounded⟩
    | logged hentry hfixed =>
      simp only [hentry] at h
      cases h
      exact logged_rotating hR (hP _ hentry) (hT _ hentry) hfixed

theorem init_unread {now : Reading} (hnow : now.tm = none) : initFilename path now hand = hand := by
  unfold initFilename
  rw [hnow]

theorem init_read {now : Reading} (hnow : now.tm = some tm)
    (huncut : (periodName path type tm).length < xnetLognameLen) :
    initFilename path now (freshHandler type) =
      { freshHandler type with filename := periodName path type tm } := by
  obtain ⟨hprint,hcopy⟩ := uncut huncut
  have htype : (freshHandler type).type = type := rfl
  unfold initFilename
  simp only [hnow, htype, hprint, hcopy]
  split
  · rfl
  next hsame =>
    rw [← not_not.mp hsame]
    rfl

theorem init_kept {now : Reading}
    (huncut : ∀ tm ∈ now.tm, (periodName path type tm).length < xnetLognameLen) :
    Kept path (initFilename path now (freshHandler type))
      (now.tm.map (periodName path type)).toList [] := by
  cases hnow : now.tm with
  | none =>
    rw [init_unread hnow]
    exact ⟨by simp [freshHandler], Int.le_refl _, Int.le_refl _, by simp,
      .inl rfl, by simp, by simp⟩
  | some tm =>
    rw [init_read hnow (huncut tm hnow)]
    refine ⟨by simp [freshHandler], Int.le_refl _, Int.le_refl _,
      fun p hp => ⟨tm, List.mem_singleton.mp hp⟩, .inr (.inl (List.mem_singleton_self _)),
      by simp, fun _ q hq => ?_⟩
    cases hq
    exact List.prefix_rfl

theorem init_type {now : Reading} : (initFilename path now (freshHandler type)).type = type := by
  unfold initFilename
  split
  · rfl
  · dsimp only
    split <;> rfl

theorem start_rotating (h : logging.start s) : Rotating s := by
  obtain ⟨filesize,isDebug,root,cwd,logDir,errorDir,now,l,maxsize,hinit,hpos,huncut,rfl⟩ := h
  unfold loggerInit at hinit
  dsimp only at hinit
  split at hinit
  · cases hinit
  · cases hinit
    refine ⟨hpos, init_type, init_type, ?_, ?_, bounded_nil⟩
    · exact init_kept fun tm htm => huncut tm htm 0 (by simp)
    · exact init_kept fun tm htm => huncut tm htm LogLevel.err.code (by simp)

theorem reaches_rotating
    (h : Reaches logging (fun s e => ∀ entry ∈ e.entry s.logger, Tracked s entry) s) :
    Rotating s := by
  apply h.invariant Rotating
  · exact fun _ => start_rotating
  · exact fun s e t _ hR hT ⟨hP,hrun⟩ => proceed_rotating hR hP hT hrun

/-- No file grows over the maximal size as long as no error goes back to a file
that has been rotated away. -/
theorem files_bounded
    (h : Reaches logging (fun s e => ∀ entry ∈ e.entry s.logger, Tracked s entry) s)
    (f : CString) : ((contents s.logger.appended f).length : ℤ) ≤ s.logger.maxsize := by
  have hR := reaches_rotating h
  have hpos := hR.positive
  have hfile := hR.bounded f
  omega

/-- A handler of errors whose file has been rotated goes back to the file of the
day, at any time and whatever it has written there. -/
theorem rotated_left {maxsize size : ℤ} {tm' : Tm} {o : Occasion}
    (htype : hand.type = LogLevel.err.code)
    (hname : hand.filename = rotatedName path hand.type tm' c)
    (hnow : o.now.tm = some tm) (huncut : (errName path tm).length < xnetLognameLen) :
    fixLogFilename maxsize path hand size o =
      some { hand with filename := errName path tm, fp := none } := by
  obtain ⟨hprint,hcopy⟩ := uncut huncut
  have hperiod : periodName path hand.type tm = errName path tm := if_pos htype
  unfold fixLogFilename
  simp only [hnow, hperiod, hprint, hcopy]
  rw [hname, if_pos errName_not_prefix]

section returning

def newYear : Occasion :=
  ⟨⟨1704067200, some ⟨0, 0, 0, 1, 0, 124⟩⟩, [none], true, none, ⟨0, 0, 0, 1, 0, 124⟩, 1⟩

def dayFile : CString := "/var/error/20240101.log".toList

def hourFile : CString := "/var/log/0_24010100.log".toList

def rotatedFile : CString := "/var/log/4_24010100.log_1".toList

def erring (hand : LogHandler) (log : List (CString × CString)) (reads : ℕ) : LogUse where
  logger := ⟨1048576, 1, true, "/var".toList, ⟨0, hourFile, none, 0, 0⟩, hand, log⟩
  norPeriods := [hourFile]
  errPeriods := List.replicate (reads+1) dayFile

def newYearLine (msg : CString) : CString :=
  line (dateText .err newYear.date newYear.pid) msg

variable {msg file : CString} {n' : ℤ} {reads : ℕ}

theorem newYearLine_length (hmsg : msg.length = 1048319) :
    (newYearLine msg).length = 1048355 := by
  have hdate : (dateText .err newYear.date newYear.pid).length = 33 ∧ ": ".toList.length = 2 ∧
      "\n".toList.length = 1 := by decide +kernel
  obtain ⟨h1,h2,h3⟩ := hdate
  simp only [newYearLine, line, List.length_append, h1, h2, h3, hmsg]

theorem erring_start : logging.start (erring ⟨4, dayFile, none, 0, 0⟩ [] 0) := by
  refine ⟨1, 1, some "/var".toList, [], true, true, newYear.now,
    (erring ⟨4, dayFile, none, 0, 0⟩ [] 0).logger, 1048576, ?_, by decide, ?_, ?_⟩
  · decide +kernel
  · exact fun tm _ type _ => (@uncut_short _ type 0 tm (by decide)).1
  · decide +kernel

theorem erring_period (htype : hand.type = 4) : ∀ p ∈
    (⟨.err, msg, newYear⟩ : Entry).period (erring hand log reads).logger, p = dayFile := by
  intro p hp
  have hday : some dayFile = some p := by
    rw [← Option.mem_def.mp hp]
    simp only [Entry.period, Entry.hand, Logger.handler, erring, htype]
    decide +kernel
  cases hday
  rfl

theorem erring_proper (hmsg : msg.length = 1048319) (htype : hand.type = 4) :
    Entry.Proper (erring hand log reads) ⟨.err, msg, newYear⟩ where
  short := by
    simp only [Entry.size, hmsg, erring]
    decide
  onward p hp _ := by
    cases erring_period htype p hp
    show (List.replicate (reads+1) dayFile).getLast? = some dayFile
    rw [List.replicate_succ', List.getLast?_concat]
  period p hp := by
    cases erring_period htype p hp
    decide +kernel
  rotated tm _ i _ := by
    exact (@uncut_short "/var".toList _ _ tm (by decide)).2

theorem erring_passes : LogCall.err.Passes (erring hand log reads).logger :=
  ⟨rfl, show (1 : ℤ) ≤ 5 by decide, fun h => by cases h⟩

theorem erring_step (fp : Option CString) (n : ℤ) (hmsg : msg.length = 1048319)
    (htype : hand.type = 4)
    (hfix : fixLogFilename 1048576 "/var".toList hand 1048575 newYear =
      some ⟨4, file, fp, count, n⟩)
    (hfp : fp.or (fopen file true) = some file) (hn : cInt (n+1048355) = n') :
    logging.step (erring hand log reads) (.log .err (some msg) newYear)
      (erring ⟨4, file, some file, count, n'⟩ (log ++ [(file, newYearLine msg)]) (reads+1)) := by
  have hfixed : (⟨.err, msg, newYear⟩ : Entry).fixed (erring hand log reads).logger =
      some ⟨4, file, fp, count, n⟩ := by
    have hsize : cInt (256+((1048319 : ℕ) : ℤ)) = 1048575 := by decide
    simp only [Entry.fixed, Entry.size, hmsg, hsize]
    exact hfix
  have hwritten : (⟨.err, msg, newYear⟩ : Entry).written ⟨4, file, fp, count, n⟩ =
      (⟨4, file, some file, count, n'⟩, [(file, newYearLine msg)]) := by
    have hlen := newYearLine_length hmsg
    have hopen : newYear.fopen = true := rfl
    have hwhole : newYear.fprintf = none := rfl
    unfold newYearLine at hlen
    simp only [Entry.written, writeLog, hopen, hfp, hwhole, hlen, ← hn]
    rfl
  have hread : ((⟨.err, msg, newYear⟩ : Entry).period (erring hand log reads).logger).toList =
      [dayFile] := by
    simp only [Entry.period, Entry.hand, Logger.handler, erring, htype]
    decide +kernel
  refine ⟨fun entry hentry => ?_, ?_⟩
  · simp only [Event.entry, if_pos erring_passes, Option.mem_def, Option.some.injEq] at hentry
    subst hentry
    exact erring_proper hmsg htype
  · have hmore : List.replicate (reads+1+1) dayFile =
        List.replicate (reads+1) dayFile ++ [dayFile] :=
      List.replicate_succ'
    rw [proceed_logged erring_passes hfixed]
    simp only [LogCall.level, hwritten, hread, LogUse.read]
    simp only [Logger.setHandler, erring, hmore]

theorem erring_tracked (hmsg : msg.length = 1048319) (htype : hand.type = 4)
    (hcurrent : hand.filename = dayFile) (hcount : hand.count < 2)
    (hcursize : hand.cursize < 1048576) :
    Tracked (erring hand log reads) ⟨.err, msg, newYear⟩ where
  ahead _ p hp _ := by
    cases erring_period htype p hp
    show dayFile <+: hand.filename
    rw [hcurrent]
  cursize := by
    show hand.cursize+(256+(msg.length : ℤ)) < 2147483648
    omega
  count := by
    show hand.count+(([none] : List (Option ℤ)).length : ℤ) < 2147483648
    rw [List.length_singleton]
    omega
  whole := rfl
  timed h := by cases h

theorem erring_rotates (msg : CString) (hmsg : msg.length = 1048319) :
    Reaches logging (fun s e => ∀ entry ∈ e.entry s.logger, Tracked s entry)
      (erring ⟨4, rotatedFile, some rotatedFile, 1, 1048355⟩
        [(dayFile, newYearLine msg), (rotatedFile, newYearLine msg)] 2) := by
  have hentry : ∀ {hand log reads}, ∀ entry ∈
      (Event.log .err (some msg) newYear).entry (erring hand log reads).logger,
      entry = ⟨.err, msg, newYear⟩ := by
    intro hand log reads entry hentry
    simp only [Event.entry, if_pos erring_passes, Option.mem_def, Option.some.injEq] at hentry
    exact hentry.symm
  have hfirst : logging.step (erring ⟨4, dayFile, none, 0, 0⟩ [] 0) (.log .err (some msg) newYear)
      (erring ⟨4, dayFile, some dayFile, 0, 1048355⟩ [(dayFile, newYearLine msg)] 1) :=
    erring_step none 0 hmsg rfl (by decide +kernel) rfl (by decide)
  have hsecond : logging.step
      (erring ⟨4, dayFile, some dayFile, 0, 1048355⟩ [(dayFile, newYearLine msg)] 1)
      (.log .err (some msg) newYear)
      (erring ⟨4, rotatedFile, some rotatedFile, 1, 1048355⟩
        [(dayFile, newYearLine msg), (rotatedFile, newYearLine msg)] 2) :=
    erring_step none 0 hmsg rfl (by decide +kernel) rfl (by decide)
  apply Reaches.step _ _ hsecond
  · apply Reaches.step (.start erring_start) _ hfirst
    intro entry he
    rw [hentry entry he]
    exact erring_tracked hmsg rfl rfl (by decide) (by decide)
  · intro entry he
    rw [hentry entry he]
    exact erring_tracked hmsg rfl rfl (by decide) (by decide)

/-- The first file has room for one line of a process that goes on to a second
file for the next. -/
theorem files_bounded_rotated : ∃ s,
    Reaches logging (fun s e => ∀ entry ∈ e.entry s.logger, Tracked s entry) s ∧
    s.logger.err.filename = rotatedFile ∧
    ∀ f, ((contents s.logger.appended f).length : ℤ) ≤ s.logger.maxsize :=
  ⟨_, erring_rotates (List.replicate 1048319 'x') List.length_replicate, rfl,
    files_bounded (erring_rotates _ List.length_replicate)⟩

/-- The next error goes back to the first file, which has no room for it. -/
theorem files_exceeded : ∃ s, Reachable logging s ∧
    ∃ f, s.logger.maxsize < ((contents s.logger.appended f).length : ℤ) := by
  have hmsg : (List.replicate 1048319 'x').length = 1048319 := List.length_replicate
  generalize List.replicate 1048319 'x' = msg at hmsg
  have hrotated : rotatedFile = rotatedName "/var".toList 4 newYear.date 1 := by decide +kernel
  have hday : errName "/var".toList newYear.date = dayFile := by decide +kernel
  have hback : fixLogFilename 1048576 "/var".toList ⟨4, rotatedFile, some rotatedFile, 1, 1048355⟩
      1048575 newYear = some ⟨4, dayFile, none, 1, 1048355⟩ := by
    rw [← hday]
    exact rotated_left rfl hrotated rfl (by decide +kernel)
  have hthird : logging.step
      (erring ⟨4, rotatedFile, some rotatedFile, 1, 1048355⟩
        [(dayFile, newYearLine msg), (rotatedFile, newYearLine msg)] 2)
      (.log .err (some msg) newYear)
      (erring ⟨4, dayFile, some dayFile, 1, 2096710⟩
        [(dayFile, newYearLine msg), (rotatedFile, newYearLine msg),
          (dayFile, newYearLine msg)] 3) :=
    erring_step none 1048355 hmsg rfl hback rfl (by decide)
  refine ⟨_, .step (erring_rotates msg hmsg).reachable trivial hthird, dayFile, ?_⟩
  have hne : rotatedFile ≠ dayFile := by decide
  have hlen := newYearLine_length hmsg
  have hboth : contents [(dayFile, newYearLine msg), (rotatedFile, newYearLine msg),
      (dayFile, newYearLine msg)] dayFile = newYearLine msg ++ newYearLine msg := by
    simp [contents, hne]
  simp only [erring, hboth, List.length_append, hlen]
  decide

end returning

end TcpFunnel.LogRotation
