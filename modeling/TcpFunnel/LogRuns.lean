import TcpFunnel.LogNames
import TcpFunnel.Library.Reachability

/-!
# A process that logs

`logger_init` and then any calls of the functions that log. Each call comes
with what the system answers, and for each of the two handlers the names of the
periods that its clock readings gave are kept.
-/

set_option autoImplicit false

namespace TcpFunnel.LogRuns
open TcpFunnel.CInt TcpFunnel.Log TcpFunnel.LogNames TcpFunnel.Reachability

inductive LogCall where
  | info
  | warn
  | err
  | debug
  deriving DecidableEq, Repr

def LogCall.level : LogCall → LogLevel
  | .info => .info
  | .warn => .warn
  | .err => .err
  | .debug => .debug

def LogCall.most : LogCall → LogLevel
  | .info => .info
  | .warn => .warn
  | .err => .none
  | .debug => .debug

def LogCall.run : LogCall → Logger → Option CString → Occasion → Option Logger
  | .info => xLogInfo
  | .warn => xLogWarn
  | .err => xLogErr
  | .debug => xLogDebug

def LogCall.Passes (l : Logger) (call : LogCall) : Prop :=
  l.isInited = true ∧ l.isDebug ≤ call.most.code ∧ (call = .debug → l.isDebug ≠ 0)

instance (l : Logger) (call : LogCall) : Decidable (call.Passes l) := by
  unfold LogCall.Passes
  infer_instance

inductive Event where
  | log (call : LogCall) (msg : Option CString) (o : Occasion)
  | setLogLevel (level : ℤ)
  deriving DecidableEq, Repr

structure Entry where
  level : LogLevel
  msg : CString
  o : Occasion
  deriving DecidableEq, Repr

def Event.run (l : Logger) : Event → Option Logger
  | .log call msg o => call.run l msg o
  | .setLogLevel level => some (Log.setLogLevel l level)

def Event.entry (l : Logger) : Event → Option Entry
  | .log call (some msg) o => if call.Passes l then some ⟨call.level, msg, o⟩ else none
  | .log _ none _ | .setLogLevel _ => none

def Entry.hand (l : Logger) (entry : Entry) : LogHandler := l.handler entry.level

def Entry.period (l : Logger) (entry : Entry) : Option CString :=
  entry.o.now.tm.map (periodName l.gPathBuf (entry.hand l).type)

def Entry.size (entry : Entry) : ℤ := 256+entry.msg.length

def Entry.fixed (l : Logger) (entry : Entry) : Option LogHandler :=
  fixLogFilename l.maxsize l.gPathBuf (entry.hand l) (cInt entry.size) entry.o

def Entry.written (hand : LogHandler) (entry : Entry) : LogHandler × List (CString × CString) :=
  writeLog hand (dateText entry.level entry.o.date entry.o.pid) entry.msg entry.o

/-- The logger, and the periods of its handlers in the order they were read. -/
structure LogUse where
  logger : Logger
  norPeriods : List CString
  errPeriods : List CString
  deriving DecidableEq, Repr

def LogUse.periods (s : LogUse) : LogLevel → List CString
  | .err => s.errPeriods
  | .normal | .debug | .info | .warn | .none => s.norPeriods

def LogUse.read (s : LogUse) (ps : List CString) : LogLevel → LogUse
  | .err => { s with errPeriods := s.errPeriods ++ ps }
  | .normal | .debug | .info | .warn | .none => { s with norPeriods := s.norPeriods ++ ps }

def proceed (s : LogUse) (e : Event) : Option LogUse :=
  match e.run s.logger with
  | none => none
  | some l =>
    match e.entry s.logger with
    | none => some { s with logger := l }
    | some entry => some { s.read (entry.period s.logger).toList entry.level with logger := l }

/-- A message has to fit into a file, a period does not come back once it has
been left, and no name is cut off. -/
structure Entry.Proper (s : LogUse) (entry : Entry) : Prop where
  short : entry.size < s.logger.maxsize
  onward : ∀ p ∈ entry.period s.logger, p ∈ s.periods entry.level →
    (s.periods entry.level).getLast? = some p
  period : ∀ p ∈ entry.period s.logger, p.length < xnetLognameLen
  rotated : ∀ tm ∈ entry.o.now.tm, ∀ i < entry.o.stats.length,
    (rotatedName s.logger.gPathBuf (entry.hand s.logger).type tm
      ((entry.hand s.logger).count+1+i)).length < xnetLognameLen

theorem uncut_short {path : CString} {type c : ℤ} {tm : Tm} (h : path.length+77 < xnetLognameLen) :
    (periodName path type tm).length < xnetLognameLen ∧
    (rotatedName path type tm c).length < xnetLognameLen := by
  have hperiod := @periodName_length path type tm
  have hrotated := @rotatedName_length path type c tm
  omega

def begun (l : Logger) (now : Reading) : LogUse :=
  ⟨l, (now.tm.map (periodName l.gPathBuf 0)).toList,
    (now.tm.map (periodName l.gPathBuf LogLevel.err.code)).toList⟩

/-- The processes whose logger has any positive maximal size and whatever else
`logger_init` gives it. -/
def logging : System LogUse Event where
  start s := ∃ filesize isDebug root cwd logDir errorDir now l maxsize,
    loggerInit filesize isDebug root cwd logDir errorDir now = some l ∧ 0 < maxsize ∧
    (∀ tm ∈ now.tm, ∀ type ∈ [0, LogLevel.err.code],
      (periodName l.gPathBuf type tm).length < xnetLognameLen) ∧
    s = begun { l with maxsize := maxsize } now
  step s e t := (∀ entry ∈ e.entry s.logger, entry.Proper s) ∧ proceed s e = some t

section levels

variable {l : Logger} {s : LogUse} {hand : LogHandler} {ps : List CString} {level : LogLevel}

theorem handler_normal (h : level ≠ .err) : l.handler level = l.normal := by
  cases level with
  | err => exact absurd rfl h
  | normal | debug | info | warn | none => rfl

theorem setHandler_normal (h : level ≠ .err) :
    l.setHandler hand level = { l with normal := hand } := by
  cases level with
  | err => exact absurd rfl h
  | normal | debug | info | warn | none => rfl

theorem periods_normal (h : level ≠ .err) : s.periods level = s.norPeriods := by
  cases level with
  | err => exact absurd rfl h
  | normal | debug | info | warn | none => rfl

theorem read_normal (h : level ≠ .err) :
    s.read ps level = { s with norPeriods := s.norPeriods ++ ps } := by
  cases level with
  | err => exact absurd rfl h
  | normal | debug | info | warn | none => rfl

end levels

section calls

variable {l l' : Logger} {e : Event} {entry : Entry} {s t : LogUse}

theorem call_run (call : LogCall) (msg : Option CString) (o : Occasion) :
    call.run l msg o = if call.Passes l then loggerLog l call.level msg o else some l := by
  have hxlog : ∀ level most : LogLevel, xLog level most l msg o =
      if l.isInited = true ∧ l.isDebug ≤ most.code then loggerLog l level msg o else some l := by
    intro level most
    unfold xLog
    by_cases hinit : l.isInited = true
    · by_cases hdebug : l.isDebug ≤ most.code
      · simp [hinit, hdebug, Int.not_lt.mpr hdebug]
      · simp [hinit, hdebug, Int.lt_of_not_ge hdebug]
    · simp [hinit]
  cases call with
  | info => simp [LogCall.run, xLogInfo, hxlog, LogCall.Passes, LogCall.level, LogCall.most]
  | warn => simp [LogCall.run, xLogWarn, hxlog, LogCall.Passes, LogCall.level, LogCall.most]
  | err => simp [LogCall.run, xLogErr, hxlog, LogCall.Passes, LogCall.level, LogCall.most]
  | debug =>
    have hdebug : xLogDebug l msg o =
        if l.isDebug ≠ 0 then xLog .debug .debug l msg o else some l := by
      unfold xLogDebug xLog
      by_cases hzero : l.isDebug = 0
      · simp [hzero]
      · simp [hzero]
    simp only [LogCall.run, LogCall.Passes, hdebug, hxlog, LogCall.level, LogCall.most]
    by_cases hzero : l.isDebug = 0
    · simp [hzero]
    · simp [hzero]

theorem loggerLog_none (level : LogLevel) (o : Occasion) : loggerLog l level none o = some l := by
  unfold loggerLog
  split <;> rfl

theorem loggerLog_some (call : LogCall) (msg : CString) (o : Occasion) :
    loggerLog l call.level (some msg) o =
      ((⟨call.level, msg, o⟩ : Entry).fixed l).map fun hand =>
        { l.setHandler ((⟨call.level, msg, o⟩ : Entry).written hand).1 call.level with
          appended := l.appended ++ ((⟨call.level, msg, o⟩ : Entry).written hand).2 } := by
  have hpass : ¬ (call.level ≠ .err ∧ gLogLevel > call.level.code) := by
    cases call <;> decide
  unfold loggerLog
  rw [if_neg hpass]
  simp only [Entry.fixed, Entry.hand, Entry.size, Entry.written]
  cases fixLogFilename l.maxsize l.gPathBuf (l.handler call.level) (cInt (256+msg.length)) o <;> rfl

inductive Ran (l : Logger) (e : Event) : Logger → Prop
  | quiet (h : e.entry l = none) (isDebug : ℤ) : Ran l e { l with isDebug := isDebug }
  | logged {entry : Entry} {hand : LogHandler} (h : e.entry l = some entry)
      (hfixed : entry.fixed l = some hand) :
      Ran l e { l.setHandler (entry.written hand).1 entry.level with
        appended := l.appended ++ (entry.written hand).2 }

theorem run_cases (h : e.run l = some l') : Ran l e l' := by
  cases e with
  | setLogLevel level =>
    cases h
    exact .quiet rfl level
  | log call msg o =>
    simp only [Event.run, call_run] at h
    cases msg with
    | none =>
      rw [loggerLog_none, ite_self] at h
      cases h
      exact .quiet rfl _
    | some msg =>
      by_cases hpass : call.Passes l
      · rw [if_pos hpass, loggerLog_some, Option.map_eq_some_iff] at h
        obtain ⟨hand,hfixed,rfl⟩ := h
        exact .logged (by simp [Event.entry, hpass]) hfixed
      · rw [if_neg hpass] at h
        cases h
        exact .quiet (by simp [Event.entry, hpass]) _

theorem proceed_logged {call : LogCall} {msg : CString} {o : Occasion} {hand : LogHandler}
    (hpass : call.Passes s.logger)
    (hfixed : (⟨call.level, msg, o⟩ : Entry).fixed s.logger = some hand) :
    proceed s (.log call (some msg) o) =
      some { s.read ((⟨call.level, msg, o⟩ : Entry).period s.logger).toList call.level with
        logger := { s.logger.setHandler ((⟨call.level, msg, o⟩ : Entry).written hand).1
            call.level with
          appended := s.logger.appended ++ ((⟨call.level, msg, o⟩ : Entry).written hand).2 } } := by
  simp only [proceed, Event.run, Event.entry, call_run, if_pos hpass, loggerLog_some, hfixed,
    Option.map_some]

end calls

end TcpFunnel.LogRuns
