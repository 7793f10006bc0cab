import TcpFunnel.HandlerTable
import TcpFunnel.Library.Slots

/-!
# Runs of a process with a table of log handlers

What one event does to the table is said once. A level that is given a path of
its own gets a new handler, and the one it may have had is not used again.
-/

set_option autoImplicit false

namespace TcpFunnel.HandlerRuns
open TcpFunnel.BufferPool TcpFunnel.CInt TcpFunnel.Log TcpFunnel.LogRuns
open TcpFunnel.HandlerTable TcpFunnel.Slots TcpFunnel.Reachability

inductive Event where
  | log (call : LogCall) (msg : Option CString) (o : Answer)
  | setLogLevel (level : ℤ)
  | changeLogPath (level : ℤ) (calloc : Bool) (now : Reading)

def call : LogCall → Option CString → Answer → Logging Unit
  | .info => HandlerTable.xLogInfo
  | .warn => HandlerTable.xLogWarn
  | .err => HandlerTable.xLogErr
  | .debug => HandlerTable.xLogDebug

def perform : Event → Logging Unit
  | .log c msg o => call c msg o
  | .setLogLevel level => HandlerTable.setLogLevel level
  | .changeLogPath level calloc now => changeLogPath level calloc now

def Changeable (level : ℤ) : Prop := 0 < level ∧ level < 4

instance (level : ℤ) : Decidable (Changeable level) := inferInstanceAs (Decidable (_ ∧ _))

def Event.changes : Event → List ℤ
  | .changeLogPath level _ _ => if Changeable level then [level] else []
  | .log .. | .setLogLevel _ => []

def Passes (t : LogTable) (c : LogCall) : Prop :=
  t.isInited = true ∧ t.isDebug ≤ c.most.code ∧ (c = .debug → t.isDebug ≠ 0)

instance (t : LogTable) (c : LogCall) : Decidable (Passes t c) := by
  unfold Passes
  infer_instance

def Event.entry (t : LogTable) : Event → Option (LogHandler × Entry)
  | .log c (some msg) o =>
    if Passes t c then
      ((t.handler c.level.code).bind t.handlers.get).map fun r => (r, ⟨c.level, msg, o.toOccasion⟩)
    else none
  | .log _ none _ | .setLogLevel _ | .changeLogPath .. => none

/-- A line that has been appended: the level of the message, whether the level had
been given a path of its own by then, and the file. -/
structure Filed where
  level : LogLevel
  own : Bool
  file : CString
  line : CString
  deriving DecidableEq, Repr

def Filed.type (p : Filed) : ℤ := if p.level = .err ∨ p.own = true then p.level.code else 0

section results

variable (t : LogTable) (h : HandId) (r : LogHandler) (type : ℤ) (entry : Entry) (o : Answer)

/-- The path of the link, which is made anew whenever the clock can be read. -/
def pathRead : LogTable :=
  if o.now.tm.isSome then
    if type = LogLevel.err.code then { t with gErrLinkPath := errLinkPath t.gPathBuf }
    else { t with gNorLinkPath := norLinkPath t.gPathBuf }
  else t

def linkName (file : CString) : CString :=
  if "error".toList <:+: file then t.gErrLinkPath else t.gNorLinkPath

def relinked : LogTable :=
  if r.fp = none ∧ (fopen r.filename o.fopen).isSome then
    { t with links := relink t.links (linkName t r.filename) r.filename o.unlink o.link }
  else t

def logged : LogTable :=
  { relinked (pathRead t r.type o) r o with
    handlers := t.handlers.set h (entry.written r).1
    appended := t.appended ++ (entry.written r).2 }

def changed (level : ℤ) (now : Reading) : LogTable :=
  { t with
    handlers := t.handlers.push (Log.initFilename t.gPathBuf now (freshHandler level))
    handler := given t.handler level t.handlers.next }

end results

variable {t t' : LogTable} {h : HandId} {r r' : LogHandler} {type level : ℤ} {entry : Entry}
variable {o : Answer} {now : Reading}

@[simp] theorem pathRead_frame :
    (pathRead t type o).handlers = t.handlers ∧ (pathRead t type o).handler = t.handler ∧
    (pathRead t type o).appended = t.appended ∧ (pathRead t type o).gPathBuf = t.gPathBuf ∧
    (pathRead t type o).maxsize = t.maxsize ∧ (pathRead t type o).isDebug = t.isDebug ∧
    (pathRead t type o).isInited = t.isInited ∧ (pathRead t type o).links = t.links := by
  unfold pathRead
  split
  · split <;> simp
  · simp

@[simp] theorem relinked_frame :
    (relinked t r o).handlers = t.handlers ∧ (relinked t r o).handler = t.handler ∧
    (relinked t r o).appended = t.appended ∧ (relinked t r o).gPathBuf = t.gPathBuf ∧
    (relinked t r o).maxsize = t.maxsize ∧ (relinked t r o).isDebug = t.isDebug ∧
    (relinked t r o).isInited = t.isInited ∧ (relinked t r o).gErrLinkPath = t.gErrLinkPath ∧
    (relinked t r o).gNorLinkPath = t.gNorLinkPath := by
  unfold relinked
  split <;> simp

theorem relinked_handlers (s : Store LogHandler) :
    relinked { t with handlers := s } r o = { relinked t r o with handlers := s } := by
  unfold relinked
  by_cases hopen : r.fp = none ∧ (fopen r.filename o.fopen).isSome
  · simp only [if_pos hopen]
    rfl
  · simp only [if_neg hopen]

@[simp] theorem logged_frame :
    (logged t h r entry o).handler = t.handler ∧ (logged t h r entry o).gPathBuf = t.gPathBuf ∧
    (logged t h r entry o).maxsize = t.maxsize ∧ (logged t h r entry o).isDebug = t.isDebug ∧
    (logged t h r entry o).isInited = t.isInited := by
  simp [logged]

section runs

theorem hand_run (hr : t.handlers.get h = some r) : (hand h).run t = .ok r t := by
  simp only [hand, EStateM.run_bind, EStateM.run_get, hr]
  rfl

theorem hand_freed (hr : t.handlers.get h = none) :
    (hand h).run t = .error .useAfterFree t := by
  simp only [hand, EStateM.run_bind, EStateM.run_get, hr]
  rfl

theorem setHand_run (hr : t.handlers.get h = some r) :
    (setHand h r').run t = .ok () { t with handlers := t.handlers.set h r' } := by
  simp only [setHand, EStateM.run_bind, hand_run hr]
  rfl

theorem nameHandler_run (hr : t.handlers.get h = some r) : (nameHandler h now).run t =
    .ok () { t with handlers := t.handlers.set h (Log.initFilename t.gPathBuf now r) } := by
  simp only [nameHandler, EStateM.run_bind, EStateM.run_get, hand_run hr, setHand_run hr]

theorem changeLogPath_run (hlevel : Changeable level) :
    (changeLogPath level true now).run t = .ok () (changed t level now) := by
  have hnot : ¬ (level ≤ 0 ∨ level = 4 ∨ 5 ≤ level) := by
    unfold Changeable at hlevel
    omega
  have hnew : ({ t with
      handlers := t.handlers.push (freshHandler level)
      handler := given t.handler level t.handlers.next } : LogTable).handlers.get
        t.handlers.next = some (freshHandler level) := by simp
  simp only [changeLogPath, if_neg hnot]
  refine (nameHandler_run hnew).trans ?_
  simp only [changed, Store.push_set]

theorem changeLogPath_none (hlevel : Changeable level) :
    (changeLogPath level false now).run t = .error .nullDereference t := by
  have hnot : ¬ (level ≤ 0 ∨ level = 4 ∨ 5 ≤ level) := by
    unfold Changeable at hlevel
    omega
  simp only [changeLogPath, if_neg hnot]
  rfl

theorem changeLogPath_ignored {calloc : Bool} (hlevel : ¬ Changeable level) :
    (changeLogPath level calloc now).run t = .ok () t := by
  have hout : level ≤ 0 ∨ level = 4 ∨ 5 ≤ level := by
    unfold Changeable at hlevel
    omega
  simp only [changeLogPath, if_pos hout]
  rfl

theorem fixLogFilename_run (hr : t.handlers.get h = some r) (size : ℤ) :
    (HandlerTable.fixLogFilename h size o.toOccasion).run t =
      match Log.fixLogFilename t.maxsize t.gPathBuf r size o.toOccasion with
      | none => .error .pending (pathRead t r.type o)
      | some r' => .ok () { pathRead t r.type o with handlers := t.handlers.set h r' } := by
  have hset : ∀ t' : LogTable, t'.handlers = t.handlers →
      (match Log.fixLogFilename t.maxsize t.gPathBuf r size o.toOccasion with
        | none => throw .pending
        | some r' => setHand h r' : Logging Unit).run t' =
      match Log.fixLogFilename t.maxsize t.gPathBuf r size o.toOccasion with
      | none => .error .pending t'
      | some r' => .ok () { t' with handlers := t.handlers.set h r' } := by
    intro t' hsame
    cases Log.fixLogFilename t.maxsize t.gPathBuf r size o.toOccasion with
    | none => rfl
    | some r' =>
      have hr' : t'.handlers.get h = some r := hsame ▸ hr
      rw [← hsame]
      exact setHand_run hr'
  simp only [HandlerTable.fixLogFilename, EStateM.run_bind, EStateM.run_get, hand_run hr]
  unfold pathRead
  by_cases hnow : o.now.tm.isSome
  · by_cases htype : r.type = LogLevel.err.code
    · simp only [if_pos hnow, if_pos htype]
      exact hset { t with gErrLinkPath := errLinkPath t.gPathBuf } rfl
    · simp only [if_pos hnow, if_neg htype]
      exact hset { t with gNorLinkPath := norLinkPath t.gPathBuf } rfl
  · simp only [if_neg hnow]
    exact hset t rfl

theorem writeLog_run (hr : t.handlers.get h = some r) {entry : Entry}
    (hentry : entry.o = o.toOccasion) :
    (HandlerTable.writeLog h (dateText entry.level o.date o.pid) entry.msg o).run t =
      .ok () { relinked t r o with
        handlers := t.handlers.set h (entry.written r).1
        appended := t.appended ++ (entry.written r).2 } := by
  have hwritten : Log.writeLog r (dateText entry.level o.date o.pid) entry.msg o.toOccasion =
      entry.written r := by
    rw [Entry.written, hentry]
  have hset : ∀ t' : LogTable, t'.handlers = t.handlers → t'.appended = t.appended →
      (do
        setHand h (entry.written r).1
        modify fun t => { t with appended := t.appended ++ (entry.written r).2 } :
          Logging Unit).run t' =
      .ok () { t' with
        handlers := t.handlers.set h (entry.written r).1
        appended := t.appended ++ (entry.written r).2 } := by
    intro t' hsame happ
    have hr' : t'.handlers.get h = some r := hsame ▸ hr
    rw [EStateM.run_bind, setHand_run hr', ← hsame, ← happ]
    rfl
  simp only [HandlerTable.writeLog, EStateM.run_bind, hand_run hr, hwritten]
  rw [← hset _ relinked_frame.1 relinked_frame.2.2.1]
  unfold relinked
  by_cases hopen : r.fp = none ∧ (fopen r.filename o.fopen).isSome
  · simp only [if_pos hopen]
    rfl
  · simp only [if_neg hopen]

theorem fix_type {maxsize size : ℤ} {path : CString} {o : Occasion}
    (hfix : Log.fixLogFilename maxsize path r size o = some r') : r'.type = r.type := by
  unfold Log.fixLogFilename at hfix
  split at hfix
  next => cases hfix; rfl
  next =>
    dsimp only at hfix
    split at hfix
    next => cases hfix; rfl
    next =>
      split at hfix
      next =>
        split at hfix
        next => cases hfix
        next => cases hfix; rfl
      next => cases hfix; rfl

theorem written_type : (entry.written r).1.type = r.type := by
  unfold Entry.written Log.writeLog
  split
  · rfl
  · split <;> rfl

theorem loggerLog_run {c : LogCall} {msg : CString} (hslot : t.handler c.level.code = some h)
    (hr : t.handlers.get h = some r) : (HandlerTable.loggerLog c.level (some msg) o).run t =
      match Log.fixLogFilename t.maxsize t.gPathBuf r (cInt (256+msg.length)) o.toOccasion with
      | none => .error .pending (pathRead t r.type o)
      | some r' => .ok () (logged t h r' ⟨c.level, msg, o.toOccasion⟩ o) := by
  have hlevel : ¬ (c.level ≠ .err ∧ gLogLevel > c.level.code) := by
    cases c <;> decide
  simp only [HandlerTable.loggerLog, EStateM.run_bind, EStateM.run_get, hslot, if_neg hlevel,
    fixLogFilename_run hr]
  cases hfix : Log.fixLogFilename t.maxsize t.gPathBuf r (cInt (256+msg.length))
      o.toOccasion with
  | none => rfl
  | some r' =>
    have hr' : ({ pathRead t r.type o with handlers := t.handlers.set h r' } :
        LogTable).handlers.get h = some r' := by simp
    have hentry : (⟨c.level, msg, o.toOccasion⟩ : Entry).o = o.toOccasion := rfl
    refine (writeLog_run hr' hentry).trans ?_
    rw [relinked_handlers (t := pathRead t r.type o) (r := r') (o := o) (t.handlers.set h r')]
    simp only [logged, fix_type hfix, Store.set_set, pathRead_frame.2.2.1]

theorem loggerLog_none (level : LogLevel) :
    (HandlerTable.loggerLog level none o).run t = .ok () t := by
  simp only [HandlerTable.loggerLog, EStateM.run_bind, EStateM.run_get]
  split
  · rfl
  · split <;> rfl

theorem loggerLog_empty {level : LogLevel} {msg : Option CString}
    (hslot : t.handler level.code = none) :
    (HandlerTable.loggerLog level msg o).run t = .ok () t := by
  simp only [HandlerTable.loggerLog, EStateM.run_bind, EStateM.run_get, hslot]
  rfl

theorem loggerLog_freed {c : LogCall} {msg : CString} (hslot : t.handler c.level.code = some h)
    (hr : t.handlers.get h = none) :
    (HandlerTable.loggerLog c.level (some msg) o).run t = .error .useAfterFree t := by
  have hlevel : ¬ (c.level ≠ .err ∧ gLogLevel > c.level.code) := by
    cases c <;> decide
  simp only [HandlerTable.loggerLog, EStateM.run_bind, EStateM.run_get, hslot, if_neg hlevel,
    HandlerTable.fixLogFilename, hand_freed hr]

inductive Stepped (t : LogTable) : Event → LogTable → Prop
  | quiet {e : Event} (hnone : e.changes = []) (hquiet : e.entry t = none) (isDebug : ℤ) :
      Stepped t e { t with isDebug := isDebug }
  | logged {c : LogCall} {msg : CString} {o : Answer} {h : HandId} {r r' : LogHandler}
      (hpass : Passes t c) (hslot : t.handler c.level.code = some h)
      (hr : t.handlers.get h = some r)
      (hfix : Log.fixLogFilename t.maxsize t.gPathBuf r (cInt (256+msg.length)) o.toOccasion =
        some r') :
      Stepped t (.log c (some msg) o) (logged t h r' ⟨c.level, msg, o.toOccasion⟩ o)
  | changed {level : ℤ} {now : Reading} (hlevel : Changeable level) :
      Stepped t (.changeLogPath level true now) (changed t level now)

theorem xLog_run (level most : LogLevel) (msg : Option CString) :
    (HandlerTable.xLog level most msg o).run t =
      if t.isInited = true ∧ t.isDebug ≤ most.code then
        (HandlerTable.loggerLog level msg o).run t
      else .ok () t := by
  unfold HandlerTable.xLog
  by_cases hinit : t.isInited = true
  · by_cases hdebug : t.isDebug ≤ most.code
    · have hpass : ¬ t.isDebug > most.code := Int.not_lt.mpr hdebug
      simp [hinit, hdebug, hpass]
    · have hstop : t.isDebug > most.code := Int.lt_of_not_ge hdebug
      simp [hinit, hdebug, hstop]
  · simp [hinit]

theorem perform_log (c : LogCall) (msg : Option CString) (o : Answer) :
    (perform (.log c msg o)).run t =
      if Passes t c then (HandlerTable.loggerLog c.level msg o).run t else .ok () t := by
  cases c with
  | info =>
    show (HandlerTable.xLog .info .info msg o).run t = _
    rw [xLog_run]
    apply if_congr _ rfl rfl
    simp [Passes, LogCall.most]
  | warn =>
    show (HandlerTable.xLog .warn .warn msg o).run t = _
    rw [xLog_run]
    apply if_congr _ rfl rfl
    simp [Passes, LogCall.most]
  | err =>
    show (HandlerTable.xLog .err .none msg o).run t = _
    rw [xLog_run]
    apply if_congr _ rfl rfl
    simp [Passes, LogCall.most]
  | debug =>
    show (HandlerTable.xLogDebug msg o).run t = _
    unfold HandlerTable.xLogDebug
    by_cases hinit : t.isInited = true
    · by_cases hdebug : t.isDebug ≤ LogLevel.debug.code
      · have hpass : ¬ t.isDebug > LogLevel.debug.code := Int.not_lt.mpr hdebug
        by_cases hzero : t.isDebug = 0
        · simp [hinit, hzero, Passes, LogLevel.code]
        · simp [hinit, hpass, hzero, hdebug, Passes, LogCall.most, LogCall.level]
      · have hstop : t.isDebug > LogLevel.debug.code := Int.lt_of_not_ge hdebug
        simp [hinit, hdebug, hstop, Passes, LogCall.most]
    · simp [hinit, Passes]

theorem perform_cases {e : Event} (hrun : (perform e).run t = .ok () t') : Stepped t e t' := by
  cases e with
  | setLogLevel level =>
    cases hrun
    exact .quiet rfl rfl level
  | changeLogPath level calloc now =>
    change (changeLogPath level calloc now).run t = _ at hrun
    by_cases hlevel : Changeable level
    · cases calloc with
      | true =>
        rw [changeLogPath_run hlevel] at hrun
        cases hrun
        exact .changed hlevel
      | false =>
        rw [changeLogPath_none hlevel] at hrun
        cases hrun
    · rw [changeLogPath_ignored hlevel] at hrun
      cases hrun
      have hnone : (Event.changeLogPath level calloc now).changes = [] := if_neg hlevel
      exact .quiet hnone rfl t.isDebug
  | log c msg o =>
    rw [perform_log] at hrun
    cases msg with
    | none =>
      rw [loggerLog_none, ite_self] at hrun
      cases hrun
      exact .quiet rfl rfl t.isDebug
    | some msg =>
      by_cases hpass : Passes t c
      · rw [if_pos hpass] at hrun
        cases hslot : t.handler c.level.code with
        | none =>
          have hquiet : (Event.log c (some msg) o).entry t = none := by
            simp [Event.entry, hpass, hslot]
          rw [loggerLog_empty hslot] at hrun
          cases hrun
          exact .quiet rfl hquiet t.isDebug
        | some h =>
          cases hr : t.handlers.get h with
          | none =>
            rw [loggerLog_freed hslot hr] at hrun
            cases hrun
          | some r =>
            rw [loggerLog_run hslot hr] at hrun
            split at hrun
            next => cases hrun
            next r' hfix =>
              cases hrun
              exact .logged hpass hslot hr hfix
      · have hquiet : (Event.log c (some msg) o).entry t = none := if_neg hpass
        rw [if_neg hpass] at hrun
        cases hrun
        exact .quiet rfl hquiet t.isDebug

end runs

def unset (links : CString → Option CString) : LogTable where
  maxsize := 0
  isDebug := 0
  isInited := false
  gPathBuf := []
  gErrLinkPath := []
  gNorLinkPath := []
  handlers := Store.empty
  handler := fun _ => none
  appended := []
  links := links

def initSlots : ℤ → Option HandId :=
  given (given (given (given (given (fun _ => none) 0 0) 1 0) 2 0) 3 0) 4 1

def inited (maxsize isDebug : ℤ) (path : CString) (now : Reading)
    (links : CString → Option CString) : LogTable where
  maxsize := maxsize
  isDebug := isDebug
  isInited := true
  gPathBuf := path
  gErrLinkPath := []
  gNorLinkPath := []
  handlers := (Store.empty.push (Log.initFilename path now (freshHandler 0))).push
    (Log.initFilename path now (freshHandler 4))
  handler := initSlots
  appended := []
  links := links

inductive Begun (now : Reading) : LogTable → Prop
  | bare (path : CString) (links : CString → Option CString) :
      Begun now { unset links with gPathBuf := path }
  | inited (maxsize isDebug : ℤ) (path : CString) (links : CString → Option CString) :
      Begun now (inited maxsize isDebug path now links)

theorem init_store (a a' b b' : LogHandler) :
    (((Store.empty.push a).push b).set 1 b').set 0 a' = (Store.empty.push a').push b' := by
  have h1 : ((Store.empty.push a).push b).set 1 b' = (Store.empty.push a).push b' :=
    Store.push_set ..
  have h0 : (Store.empty.push a).set 0 a' = Store.empty.push a' := Store.push_set ..
  rw [h1, Store.push_set_old Nat.zero_lt_one, h0]

theorem loggerInit_run {filesize isDebug : ℤ} {root : Option CString} {cwd : CString}
    {links : CString → Option CString} :
    (HandlerTable.loggerInit filesize isDebug root cwd true true true true now).run (unset links) =
      .ok () (inited (cInt (filesize*1024*1024)) isDebug
        ((root.map (strncpy xnetPathLen)).getD cwd) now links) := by
  let path := (root.map (strncpy xnetPathLen)).getD cwd
  let named := inited (cInt (filesize*1024*1024)) isDebug path now links
  let fresh : LogTable := { named with
    handlers := (Store.empty.push (freshHandler 0)).push (freshHandler 4) }
  have h4 : fresh.handlers.get 1 = some (freshHandler 4) := rfl
  have h0 : (fresh.handlers.set 1 (Log.initFilename path now (freshHandler 4))).get 0 =
    some (freshHandler 0) := rfl
  have hnamed : ∀ s, s = named.handlers → EStateM.Result.ok () { fresh with handlers := s } =
      (.ok () named : EStateM.Result Stop LogTable Unit) := by
    rintro s rfl
    rfl
  show (do nameHandler 1 now; nameHandler 0 now : Logging Unit).run fresh = _
  rw [EStateM.run_bind, nameHandler_run h4]
  exact (nameHandler_run h0).trans (hnamed _ (init_store ..))

theorem loggerInit_cases {filesize isDebug : ℤ} {root : Option CString} {cwd : CString}
    {logDir errorDir calloc0 calloc4 : Bool} {links : CString → Option CString}
    (hrun : (HandlerTable.loggerInit filesize isDebug root cwd logDir errorDir calloc0 calloc4
      now).run (unset links) = .ok () t) : Begun now t := by
  by_cases hdirs : ¬ logDir = true ∨ ¬ errorDir = true
  · unfold HandlerTable.loggerInit at hrun
    simp only [if_pos hdirs] at hrun
    cases hrun
    exact .bare _ links
  · obtain ⟨rfl,rfl⟩ : logDir = true ∧ errorDir = true := by simpa using hdirs
    cases calloc0 with
    | false => cases hrun
    | true =>
      cases calloc4 with
      | false => cases hrun
      | true =>
        rw [loggerInit_run] at hrun
        cases hrun
        exact .inited ..

/-- The table, the levels that have been given a path, the last one first, and the
lines in the order in which they were appended. -/
structure HandlerUse where
  table : LogTable
  changed : List ℤ
  filed : List Filed

def Event.filings (s : HandlerUse) (t : LogTable) : Event → List Filed
  | .log c _ _ => (t.appended.drop s.table.appended.length).map fun piece =>
    ⟨c.level, decide (c.level.code ∈ s.changed), piece.1, piece.2⟩
  | .setLogLevel _ | .changeLogPath .. => []

def proceed (s : HandlerUse) (e : Event) : Option HandlerUse :=
  match (perform e).run s.table with
  | .error .. => none
  | .ok () t => some ⟨t, e.changes ++ s.changed, s.filed ++ e.filings s t⟩

/-- The processes that call `logger_init` once and before anything else. -/
def handling : System HandlerUse Event where
  start s := ∃ filesize isDebug root cwd logDir errorDir calloc0 calloc4 now links t,
    (HandlerTable.loggerInit filesize isDebug root cwd logDir errorDir calloc0 calloc4 now).run
      (unset links) = .ok () t ∧ s = ⟨t, [], []⟩
  step s e t := proceed s e = some t

theorem proceed_cases {s s' : HandlerUse} {e : Event} (h : proceed s e = some s') :
    ∃ t, Stepped s.table e t ∧ s' = ⟨t, e.changes ++ s.changed, s.filed ++ e.filings s t⟩ := by
  unfold proceed at h
  split at h
  next => cases h
  next t hrun =>
    cases h
    exact ⟨t, perform_cases hrun, rfl⟩

end TcpFunnel.HandlerRuns
