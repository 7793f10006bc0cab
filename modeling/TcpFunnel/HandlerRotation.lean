import TcpFunnel.HandlerFiles

/-!
# The size of the files of the log handlers

The bound on every file holds for any number of handlers, as long as no level is
given a path twice: the second handler of a level would not know the size of the
file that it shares with the first one.
-/

set_option autoImplicit false

namespace TcpFunnel.HandlerRotation
open TcpFunnel.CInt TcpFunnel.Log TcpFunnel.LogNames TcpFunnel.Appends
open TcpFunnel.HandlerTable (LogTable HandId)
open TcpFunnel.HandlerRuns TcpFunnel.HandlerOwnership TcpFunnel.HandlerFiles
open TcpFunnel.Slots TcpFunnel.Reachability
open TcpFunnel.LogRuns (Entry LogCall LogUse uncut_short)
open TcpFunnel.LogRotation (Tracked Kept fixed_cases fixed_kept written_kept init_kept init_type)

structure PacedUse where
  use : HandlerUse
  periods : ℤ → List CString

def view (t : LogTable) (r : LogHandler) (ps : List CString) : LogUse :=
  ⟨⟨t.maxsize, t.isDebug, t.isInited, t.gPathBuf, r, r, t.appended⟩, ps, ps⟩

def period (path : CString) (type : ℤ) (now : Reading) : List CString :=
  (now.tm.map (periodName path type)).toList

/-- What the handlers of a type read from the clock while an event is handled. -/
def reads (t : LogTable) (type : ℤ) : HandlerRuns.Event → List CString
  | .changeLogPath level _ now =>
    if Changeable level ∧ type = level then period t.gPathBuf type now else []
  | .log c msg o =>
    match (HandlerRuns.Event.log c msg o).entry t with
    | some (r, entry) => if type = r.type then period t.gPathBuf type entry.o.now else []
    | none => []
  | .setLogLevel _ => []

def paced : System PacedUse HandlerRuns.Event where
  start s := ∃ filesize isDebug root cwd logDir errorDir calloc0 calloc4 now links t,
    (HandlerTable.loggerInit filesize isDebug root cwd logDir errorDir calloc0 calloc4 now).run
      (unset links) = .ok () t ∧
    s = ⟨⟨t, [], []⟩, fun type => if type = 0 ∨ type = 4 then period t.gPathBuf type now else []⟩
  step s e t := proceed s.use e = some t.use ∧
    t.periods = fun type => s.periods type ++ reads s.use.table type e

/-- No level is given a path twice, and every message meets the conditions under
which a single handler keeps its files small. -/
structure Moderate (s : PacedUse) (e : HandlerRuns.Event) : Prop where
  once : ∀ level ∈ e.changes, level ∉ s.use.changed
  proper : ∀ p ∈ e.entry s.use.table,
    p.2.Proper (view s.use.table p.1 (s.periods p.1.type))
  tracked : ∀ p ∈ e.entry s.use.table,
    Tracked (view s.use.table p.1 (s.periods p.1.type)) p.2

variable {path f : CString} {type : ℤ} {t : LogTable} {s s' : PacedUse} {e : HandlerRuns.Event}
variable {h : HandId} {r r' : LogHandler} {o : HandlerTable.Answer} {entry : Entry}
variable {ps : List CString} {c : LogCall} {msg : CString} {level : ℤ}

@[simp] theorem view_hand : entry.hand (view t r ps).logger = r := by
  unfold Entry.hand
  cases entry.level <;> rfl

@[simp] theorem view_periods (level : LogLevel) : (view t r ps).periods level = ps := by
  cases level <;> rfl

theorem entry_logged (hpass : Passes t c) (hslot : t.handler c.level.code = some h)
    (hr : t.handlers.get h = some r) : (HandlerRuns.Event.log c (some msg) o).entry t =
      some (r, ⟨c.level, msg, o.toOccasion⟩) := by
  simp [HandlerRuns.Event.entry, hpass, hslot, hr]

theorem reads_quiet (hnone : e.changes = []) (hquiet : e.entry t = none) :
    reads t type e = [] := by
  cases e with
  | log c msg o => simp only [reads, hquiet]
  | setLogLevel level => rfl
  | changeLogPath level calloc now =>
    have hnot : ¬ Changeable level := by
      intro hlevel
      rw [HandlerRuns.Event.changes, if_pos hlevel] at hnone
      cases hnone
    exact if_neg fun hand => hnot hand.1

theorem paced_handling (h : Reachable paced s) : Reachable handling s.use := by
  induction h with
  | start hs =>
    obtain ⟨filesize,isDebug,root,cwd,logDir,errorDir,calloc0,calloc4,now,links,t,hrun,rfl⟩ := hs
    exact .start ⟨filesize, isDebug, root, cwd, logDir, errorDir, calloc0, calloc4, now, links, t,
      hrun, rfl⟩
  | step _ _ hstep ih => exact .step ih trivial hstep.1

/-- Every handler of the table keeps to its files, and every file to its size. -/
structure Paced (t : LogTable) (changed : List ℤ) (periods : ℤ → List CString) : Prop where
  kept : ∀ i h r, t.handler i = some h → t.handlers.get h = some r →
    Kept t.gPathBuf r (periods r.type) t.appended
  bounded : Bounded t.maxsize.toNat t.appended
  unused : ∀ i, Changeable i → i ∉ changed → periods i = [] ∧
    ∀ piece ∈ t.appended, ¬ Owns t.gPathBuf i piece.1
  named : ∀ piece ∈ t.appended, piece.1 ≠ []

theorem housed_type (hT : Housed LogHandler.type 0 5 t.handler t.handlers) {i : ℤ}
    (hslot : t.handler i = some h) (hr : t.handlers.get h = some r) :
    0 ≤ r.type ∧ r.type < 5 ∧ t.handler r.type = some h := by
  obtain ⟨q,hq,hat,-⟩ := hT.housed hslot
  cases hr.symm.trans hq
  exact ⟨(hT.range hat).1, (hT.range hat).2, hat⟩

theorem housed_apart (hT : Housed LogHandler.type 0 5 t.handler t.handlers) {i j : ℤ} {k : HandId}
    {q : LogHandler} (hslot : t.handler i = some h) (hr : t.handlers.get h = some r)
    (hk : t.handler j = some k) (hq : t.handlers.get k = some q) (hne : k ≠ h) :
    q.type ≠ r.type := by
  intro hsame
  have hh := (housed_type hT hslot hr).2.2
  have hkk := (housed_type hT hk hq).2.2
  rw [hsame, hh] at hkk
  exact hne (Option.some.inj hkk).symm

theorem type_changed {changed : List ℤ} (hT : Tabled t.handler t.handlers changed) {i j : ℤ}
    (hslot : t.handler j = some h) (hr : t.handlers.get h = some r) (hi : Changeable i)
    (hnot : i ∉ changed) : r.type ≠ i := by
  intro hsame
  have hat := (housed_type hT.housed hslot hr).2.2
  exact hnot ((hT.own i hi).mp ⟨h, r, hsame ▸ hat, hr, hsame⟩)

theorem err_level {changed : List ℤ} {filed : List Filed}
    (hT : Tabled t.handler t.handlers changed) (hF : Filing t filed)
    (hslot : t.handler c.level.code = some h) (hr : t.handlers.get h = some r)
    (htype : r.type = LogLevel.err.code) : c.level = .err := by
  have hfiled : Filed.type ⟨c.level, decide (c.level.code ∈ changed), [], []⟩ = r.type :=
    slot_type (s := ⟨t, changed, filed⟩) hT hF hslot hr
  by_contra herr
  rw [← hfiled, Filed.type] at htype
  split at htype
  · have hcode : c.level.code = LogLevel.err.code := htype
    cases c with
    | err => exact herr rfl
    | info | warn | debug => exact absurd hcode (by decide)
  · exact absurd htype (by decide)

theorem logged_paced (hT : Tabled s.use.table.handler s.use.table.handlers s.use.changed)
    (hF : Filing s.use.table s.use.filed)
    (hpos : 0 < s.use.table.maxsize) (hS : Paced s.use.table s.use.changed s.periods)
    (hpass : Passes s.use.table c) (hslot : s.use.table.handler c.level.code = some h)
    (hr : s.use.table.handlers.get h = some r)
    (hfix : fixLogFilename s.use.table.maxsize s.use.table.gPathBuf r (cInt (256+msg.length))
      o.toOccasion = some r')
    (hM : Moderate s (.log c (some msg) o)) :
    Paced (logged s.use.table h r' ⟨c.level, msg, o.toOccasion⟩ o) s.use.changed
      (fun type => s.periods type ++ reads s.use.table type (.log c (some msg) o)) := by
  obtain ⟨⟨t,changed,filed⟩,periods⟩ := s
  simp only at hT hF hpos hS hpass hslot hr hfix ⊢
  let entry : Entry := ⟨c.level, msg, o.toOccasion⟩
  let v := view t r (periods r.type)
  have hentry : (HandlerRuns.Event.log c (some msg) o).entry t = some (r, entry) :=
    entry_logged hpass hslot hr
  have hP : entry.Proper v := hM.proper _ hentry
  have hTr : Tracked v entry := hM.tracked _ hentry
  have hK : Kept v.logger.gPathBuf (entry.hand v.logger) (v.periods entry.level) t.appended := by
    rw [view_hand, view_periods]
    exact hS.kept _ h r hslot hr
  have htype : (entry.hand v.logger).type = LogLevel.err.code → entry.level = .err := by
    simp only [v, view_hand]
    exact err_level hT hF hslot hr
  have hfixed : entry.fixed v.logger = some r' := by
    rw [Entry.fixed, view_hand]
    exact hfix
  have hcounted := hK.counted
  obtain ⟨hK',hroom,hint,hsame⟩ :=
    fixed_kept hP hTr htype hK (fixed_cases hP hTr hK.count (by omega) hfixed)
  have hmost : (contents t.appended r'.filename).length+entry.size ≤ t.maxsize.toNat := by
    have hmax : v.logger.maxsize = t.maxsize := rfl
    omega
  obtain ⟨hK'',hB,hsame',hown⟩ := written_kept hK' hS.bounded hTr.whole hmost hint
  have hframe : (logged t h r' entry o).handler = t.handler ∧
      (logged t h r' entry o).gPathBuf = t.gPathBuf ∧
      (logged t h r' entry o).maxsize = t.maxsize := by simp
  obtain ⟨hhandler,hpath,hmax⟩ := hframe
  rw [view_hand] at hsame
  rw [hsame] at hsame' hown
  have hsaid : reads t r.type (.log c (some msg) o) =
      (entry.period v.logger).toList := by
    simp only [reads, hentry, if_true, period, Entry.period, v, view_hand]
    rfl
  have hsilent : ∀ i, i ≠ r.type → reads t i (.log c (some msg) o) = [] := by
    intro i hi
    simp only [reads, hentry, if_neg hi]
  have hlog : (logged t h r' entry o).appended = t.appended ++ (entry.written r').2 := rfl
  obtain ⟨hlo,hhi,-⟩ := housed_type hT.housed hslot hr
  exact {
    kept := by
      intro i k q hk hq
      rw [hhandler] at hk
      rw [hpath, hlog]
      rcases (Store.set_some t.handlers h k _ q).mp hq with ⟨rfl,rfl⟩ | ⟨hne,hq⟩
      · rw [hsame', hsaid]
        rw [view_periods] at hK''
        exact hK''
      · have happart := housed_apart hT.housed hslot hr hk hq hne
        obtain ⟨hlo',hhi',-⟩ := housed_type hT.housed hk hq
        rw [hsilent _ happart, List.append_nil]
        apply (hS.kept i k q hk hq).frame
        intro piece hpiece
        obtain ⟨hnonempty,howns⟩ := hown piece hpiece
        exact ⟨hnonempty, fun hq => happart (owns_type hlo' hhi' hlo hhi hq howns)⟩
    bounded := by
      rw [hmax, hlog]
      exact hB
    unused := by
      intro i hi hnot
      obtain ⟨hperiods,hpieces⟩ := hS.unused i hi hnot
      have hne := type_changed hT hslot hr hi hnot
      refine ⟨by rw [hperiods, hsilent i (Ne.symm hne), List.append_nil], fun piece hpiece => ?_⟩
      rw [hpath]
      rcases List.mem_append.mp hpiece with hpiece | hpiece
      · exact hpieces piece hpiece
      · intro hi'
        have hlo' := hi.1
        have hhi' := hi.2
        exact hne (owns_type hlo hhi (by omega) (by omega) (hown piece hpiece).2 hi')
    named := by
      intro piece hpiece
      rcases List.mem_append.mp hpiece with hpiece | hpiece
      · exact hS.named piece hpiece
      · exact (hown piece hpiece).1 }

theorem changed_paced (hT : Tabled s.use.table.handler s.use.table.handlers s.use.changed)
    (hshort : s.use.table.gPathBuf.length+77 < xnetLognameLen) {now : Reading}
    (hS : Paced s.use.table s.use.changed s.periods) (hlevel : Changeable level)
    (honce : level ∉ s.use.changed) :
    Paced (changed s.use.table level now) (level :: s.use.changed)
      (fun type => s.periods type ++ reads s.use.table type (.changeLogPath level true now)) := by
  obtain ⟨⟨t,known,filed⟩,periods⟩ := s
  simp only at hT hshort hS honce ⊢
  have hreads : ∀ i, i ≠ level → reads t i (.changeLogPath level true now) = [] :=
    fun i hi => if_neg fun hand => hi hand.2
  obtain ⟨hnone,hunused⟩ := hS.unused level hlevel honce
  exact {
    kept := by
      intro i k q hk hq
      rcases (Store.push_some t.handlers k _ q).mp hq with ⟨rfl,rfl⟩ | ⟨hold,hq⟩
      · have hlast : reads t level (.changeLogPath level true now) =
            (now.tm.map (periodName t.gPathBuf level)).toList := if_pos ⟨hlevel, rfl⟩
        rw [init_type, hnone, hlast, List.nil_append]
        have hinit : Kept t.gPathBuf (initFilename t.gPathBuf now (freshHandler level))
            (now.tm.map (periodName t.gPathBuf level)).toList [] :=
          init_kept fun tm _ => (@uncut_short t.gPathBuf level 0 tm hshort).1
        apply hinit.frame
        intro piece hpiece
        rw [init_type]
        exact ⟨hS.named piece hpiece, hunused piece hpiece⟩
      · have hi : i ≠ level := by
          rintro rfl
          exact hold (Option.some.inj ((if_pos rfl).symm.trans hk)).symm
        have hk : t.handler i = some k := (if_neg hi).symm.trans hk
        rw [hreads _ (type_changed hT hk hq hlevel honce), List.append_nil]
        exact hS.kept i k q hk hq
    bounded := hS.bounded
    unused := by
      intro i hi hnot
      rw [List.mem_cons, not_or] at hnot
      obtain ⟨hperiods,hpieces⟩ := hS.unused i hi hnot.2
      exact ⟨by rw [hreads i hnot.1, hperiods, List.append_nil], hpieces⟩
    named := hS.named }

theorem start_paced (h : paced.start s) (hshort : s.use.table.gPathBuf.length+77 < xnetLognameLen) :
    Paced s.use.table s.use.changed s.periods := by
  obtain ⟨filesize,isDebug,root,cwd,logDir,errorDir,calloc0,calloc4,now,links,t,hrun,rfl⟩ := h
  have hunused : ∀ i, Changeable i →
      (if i = 0 ∨ i = 4 then period t.gPathBuf i now else []) = [] := by
    intro i hi
    unfold Changeable at hi
    rw [if_neg (by omega)]
  cases loggerInit_cases hrun with
  | bare path links =>
    exact {
      kept := by rintro i h r ⟨⟩
      bounded := bounded_nil
      unused := fun i hi _ => ⟨hunused i hi, by rintro piece ⟨⟩⟩
      named := by rintro piece ⟨⟩ }
  | inited maxsize isDebug path links =>
    have hinit : ∀ i, i = 0 ∨ i = 4 → Kept path (initFilename path now (freshHandler i))
        (if i = 0 ∨ i = 4 then period path i now else []) [] := by
      intro i hi
      rw [if_pos hi]
      exact init_kept fun tm _ => (@uncut_short path i 0 tm hshort).1
    exact {
      kept := by
        intro i h r _ hr
        rcases init_handlers.mp hr with ⟨-,rfl⟩ | ⟨-,rfl⟩
        · rw [init_type]
          exact hinit 0 (.inl rfl)
        · rw [init_type]
          exact hinit 4 (.inr rfl)
      bounded := bounded_nil
      unused := fun i hi _ => ⟨hunused i hi, by rintro piece ⟨⟩⟩
      named := by rintro piece ⟨⟩ }

theorem reaches_paced (h : Reaches paced Moderate s)
    (hshort : s.use.table.gPathBuf.length+77 < xnetLognameLen) (hpos : 0 < s.use.table.maxsize) :
    Paced s.use.table s.use.changed s.periods := by
  induction h with
  | start hs => exact start_paced hs hshort
  | @step s s' e hrun hM hstep ih =>
    obtain ⟨hproceed,hperiods⟩ := hstep
    obtain ⟨t,hstepped,hnext⟩ := proceed_cases hproceed
    obtain ⟨hpath,hmax⟩ := stepped_same hstepped
    rw [hnext] at hshort hpos ⊢
    rw [hperiods]
    simp only [hpath, hmax] at hshort hpos ⊢
    have hS := ih hshort hpos
    have hr := paced_handling hrun.reachable
    have hT := reaches_tabled hr
    cases hstepped with
    | quiet hnone hquiet isDebug =>
      have hreads : (fun type => s.periods type ++ reads s.use.table type e) = s.periods := by
        funext type
        rw [reads_quiet hnone hquiet, List.append_nil]
      rw [hnone, hreads]
      exact ⟨hS.kept, hS.bounded, hS.unused, hS.named⟩
    | logged hpass hslot hr' hfix =>
      exact logged_paced hT (reaches_filing hr hshort) hpos hS hpass hslot hr' hfix hM
    | @changed level now hlevel =>
      have hchanges : (HandlerRuns.Event.changeLogPath level true now).changes = [level] :=
        if_pos hlevel
      have honce := hM.once level (by simp [hchanges])
      rw [hchanges]
      exact changed_paced hT hshort hS hlevel honce

/-- No file grows over the maximal size. -/
theorem table_files_bounded (h : Reaches paced Moderate s)
    (hshort : s.use.table.gPathBuf.length+77 < xnetLognameLen) (hpos : 0 < s.use.table.maxsize)
    (f : CString) :
    ((contents s.use.table.appended f).length : ℤ) ≤ s.use.table.maxsize := by
  have hfile := (reaches_paced h hshort hpos).bounded f
  omega

def InPeriod (s : PacedUse) (r : LogHandler) (entry : Entry) : Prop :=
  ∃ tm ∈ entry.o.now.tm, entry.o.stats = [] ∧ entry.o.fprintf = none ∧
    entry.size < s.use.table.maxsize ∧ r.cursize+entry.size < 2147483648 ∧ r.count < 2147483648 ∧
    periodName s.use.table.gPathBuf r.type tm <+: r.filename ∧
    ∀ p ∈ s.periods r.type, p = periodName s.use.table.gPathBuf r.type tm

instance (s : PacedUse) (r : LogHandler) (entry : Entry) : Decidable (InPeriod s r entry) :=
  decidable_of_iff (entry.o.now.tm.any fun tm => entry.o.stats = [] ∧ entry.o.fprintf = none ∧
    entry.size < s.use.table.maxsize ∧ r.cursize+entry.size < 2147483648 ∧ r.count < 2147483648 ∧
    periodName s.use.table.gPathBuf r.type tm <+: r.filename ∧
    ∀ p ∈ s.periods r.type, p = periodName s.use.table.gPathBuf r.type tm) (by
      simp [InPeriod, Option.any_eq_true])

theorem inPeriod_moderate (hshort : s.use.table.gPathBuf.length+77 < xnetLognameLen)
    (honce : ∀ level ∈ e.changes, level ∉ s.use.changed)
    (h : ∀ p ∈ e.entry s.use.table, InPeriod s p.1 p.2) : Moderate s e where
  once := honce
  proper := by
    rintro ⟨r,entry⟩ hp
    obtain ⟨tm,htm,hstats,hprint,hsize,hcursize,hcount,hin,hall⟩ := h _ hp
    have hread : entry.period (view s.use.table r (s.periods r.type)).logger =
        some (periodName s.use.table.gPathBuf r.type tm) := by
      rw [Entry.period, view_hand, htm]
      rfl
    refine ⟨hsize, ?_, ?_, ?_⟩
    · intro p hp hmem
      cases hread.symm.trans hp
      rw [view_periods] at hmem ⊢
      cases hlast : (s.periods r.type).getLast? with
      | none =>
        rw [List.getLast?_eq_none_iff.mp hlast] at hmem
        cases hmem
      | some q => rw [hall q (List.mem_of_getLast? hlast)]
    · intro p hp
      cases hread.symm.trans hp
      exact (@uncut_short _ r.type 0 tm hshort).1
    · intro tm' _ i _
      exact (@uncut_short s.use.table.gPathBuf _ _ tm' hshort).2
  tracked := by
    rintro ⟨r,entry⟩ hp
    obtain ⟨tm,htm,hstats,hprint,hsize,hcursize,hcount,hin,hall⟩ := h _ hp
    have hread : entry.period (view s.use.table r (s.periods r.type)).logger =
        some (periodName s.use.table.gPathBuf r.type tm) := by
      rw [Entry.period, view_hand, htm]
      rfl
    refine ⟨?_, ?_, ?_, hprint, ?_⟩
    · intro _ p hp _
      cases hread.symm.trans hp
      rw [view_hand]
      exact hin
    · rw [view_hand]
      exact hcursize
    · rw [view_hand, hstats]
      simpa using hcount
    · intro hnone
      rw [hnone] at htm
      cases htm

def paceStep (s : PacedUse) (e : HandlerRuns.Event) : Option PacedUse :=
  if s.use.table.gPathBuf.length+77 < xnetLognameLen ∧
      (∀ level ∈ e.changes, level ∉ s.use.changed) ∧
      (e.entry s.use.table).all fun p => InPeriod s p.1 p.2 then
    (proceed s.use e).map fun u =>
      ⟨u, fun type => s.periods type ++ reads s.use.table type e⟩
  else none

theorem paceStep_paced {s s' : PacedUse} (h : paceStep s e = some s') :
    Moderate s e ∧ paced.step s e s' := by
  unfold paceStep at h
  split at h
  next hok =>
    obtain ⟨u,hu,rfl⟩ := Option.map_eq_some_iff.mp h
    refine ⟨inPeriod_moderate hok.1 hok.2.1 fun p hp => ?_, hu, rfl⟩
    have hall := hok.2.2
    rw [Option.mem_def.mp hp] at hall
    simpa using hall
  next => cases h

def pacedStart : PacedUse where
  use := started
  periods := fun type =>
    if type = 0 ∨ type = 4 then period "/srv".toList type noon.now else []

theorem table_files_bounded_info : ∃ s, Reaches paced Moderate s ∧ s.use.changed = [2] ∧
    s.use.table.appended.length = 2 ∧
    ∀ f, ((contents s.use.table.appended f).length : ℤ) ≤ s.use.table.maxsize := by
  have hplay : ((infoTwice.take 3).foldlM paceStep pacedStart).map (fun s => (s.use.changed,
      s.use.table.appended.length, s.use.table.gPathBuf.length, s.use.table.maxsize)) =
      some ([2], 2, 4, 104857600) := by
    decide +kernel
  obtain ⟨s,hs,hvalues⟩ := Option.map_eq_some_iff.mp hplay
  simp only [Prod.mk.injEq] at hvalues
  obtain ⟨hchanged,hlines,hlength,hmax⟩ := hvalues
  have hstart : paced.start pacedStart :=
    ⟨100, 1, some "/srv".toList, [], true, true, true, true, noon.now, fun _ => none, _,
      loggerInit_run, rfl⟩
  have hr : Reaches paced Moderate s :=
    Reaches.foldlM (fun _ _ _ => paceStep_paced) (.start hstart) hs
  have hshort : s.use.table.gPathBuf.length+77 < xnetLognameLen := by
    rw [hlength]
    decide
  have hpos : 0 < s.use.table.maxsize := by
    rw [hmax]
    decide
  exact ⟨s, hr, hchanged, hlines, table_files_bounded hr hshort hpos⟩

end TcpFunnel.HandlerRotation
