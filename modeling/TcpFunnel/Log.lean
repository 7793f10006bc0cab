import TcpFunnel.Library.CInt

/-!
# The log files

`logger_init`, `fix_log_filename`, `write_log` and the calls above them, of
`log.c`. A stream is known by the name it was opened under, and what is written
to it is kept in order. The links to the current files are left out, and so is
the copy on the standard error output.
-/

set_option autoImplicit false

namespace TcpFunnel.Log
open TcpFunnel.CInt

def xnetLognameLen : ℕ := 512
def xnetPathLen : ℕ := 1024
def filenameMax : ℕ := 4096

abbrev CString := List Char

def strncpy (n : ℕ) (src : CString) : CString := src.take n

def snprintf (n : ℕ) (text : CString) : CString := text.take (n-1)

def percentD (x : ℤ) : CString :=
  if cInt x < 0 then '-'::Nat.toDigits 10 (cInt x).natAbs else Nat.toDigits 10 (cInt x).natAbs

def percent02D (x : ℤ) : CString :=
  if 0 ≤ cInt x ∧ cInt x < 10 then '0'::percentD x else percentD x

structure Tm where
  sec : ℤ
  min : ℤ
  hour : ℤ
  mday : ℤ
  mon : ℤ
  year : ℤ
  deriving DecidableEq, Repr

structure Reading where
  time : ℤ
  localtime : Option Tm
  deriving DecidableEq, Repr

def Reading.tm (r : Reading) : Option Tm := if cInt r.time ≠ -1 then r.localtime else none

inductive LogLevel where
  | normal
  | debug
  | info
  | warn
  | err
  | none
  deriving DecidableEq, Repr

def LogLevel.code : LogLevel → ℤ
  | .normal => 0
  | .debug => 1
  | .info => 2
  | .warn => 3
  | .err => 4
  | .none => 5

structure LogHandler where
  type : ℤ
  filename : CString
  fp : Option CString
  count : ℤ
  cursize : ℤ
  deriving DecidableEq, Repr

/-- The first four levels share the handler `normal`. The lines that have been
appended stand with the name of their file. -/
structure Logger where
  maxsize : ℤ
  isDebug : ℤ
  isInited : Bool
  gPathBuf : CString
  normal : LogHandler
  err : LogHandler
  appended : List (CString × CString)
  deriving DecidableEq, Repr

def gLogLevel : ℤ := LogLevel.normal.code

def errName (path : CString) (tm : Tm) : CString :=
  path ++ "/error/".toList ++ percentD (tm.year+1900) ++ percent02D (tm.mon+1) ++
    percent02D tm.mday ++ ".log".toList

def norName (path : CString) (type : ℤ) (tm : Tm) : CString :=
  path ++ "/log/".toList ++ percentD type ++ "_".toList ++ percent02D (tm.year+1900-2000) ++
    percent02D (tm.mon+1) ++ percent02D tm.mday ++ percent02D tm.hour ++ ".log".toList

/-- The same directory for both handlers. -/
def rotatedName (path : CString) (type : ℤ) (tm : Tm) (count : ℤ) : CString :=
  norName path type tm ++ "_".toList ++ percentD count

def periodName (path : CString) (type : ℤ) (tm : Tm) : CString :=
  if type = LogLevel.err.code then errName path tm else norName path type tm

def freshHandler (type : ℤ) : LogHandler := ⟨type, [], none, 0, 0⟩

def initFilename (path : CString) (now : Reading) (hand : LogHandler) : LogHandler :=
  match now.tm with
  | none => hand
  | some tm =>
    let tmp := snprintf xnetLognameLen (periodName path hand.type tm)
    if hand.filename ≠ tmp then { hand with filename := strncpy filenameMax tmp, fp := none }
    else hand

/-- No logger when one of the two directories cannot be made. -/
def loggerInit (filesize isDebug : ℤ) (root : Option CString) (cwd : CString)
    (logDir errorDir : Bool) (now : Reading) : Option Logger :=
  let path := (root.map (strncpy xnetPathLen)).getD cwd
  if ¬ logDir ∨ ¬ errorDir then none else
  some {
    maxsize := cInt (filesize*1024*1024), isDebug := isDebug, isInited := true, gPathBuf := path
    normal := initFilename path now (freshHandler 0)
    err := initFilename path now (freshHandler 4), appended := [] }

def setLogLevel (l : Logger) (level : ℤ) : Logger := { l with isDebug := level }

/-- One answer of `stat`, none when it fails. -/
def checkFileSize (maxsize : ℤ) (stat : Option ℤ) : Bool :=
  match stat with
  | none => false
  | some size => maxsize < size

/-- The first count whose file is not too large already. The loop has not ended
when the answers run out. -/
def nextCount (maxsize count : ℤ) : List (Option ℤ) → Option ℤ
  | [] => none
  | stat::rest =>
    if checkFileSize maxsize stat then nextCount maxsize (cInt (count+1)) rest
    else some (cInt (count+1))

/-- What the system answers while one message is logged. `fprintf` is none when
the whole line is written, and else the number of bytes written before it
failed. -/
structure Occasion where
  now : Reading
  stats : List (Option ℤ)
  fopen : Bool
  fprintf : Option ℕ
  date : Tm
  pid : ℤ
  deriving DecidableEq, Repr

def fixLogFilename (maxsize : ℤ) (path : CString) (hand : LogHandler) (msgSize : ℤ)
    (o : Occasion) : Option LogHandler :=
  match o.now.tm with
  | none => some hand
  | some tm =>
    let tmp := snprintf xnetLognameLen (periodName path hand.type tm)
    if ¬ tmp <+: hand.filename then
      some { hand with filename := strncpy filenameMax tmp, fp := none }
    else if 0 < maxsize ∧ maxsize ≤ cInt (hand.cursize+msgSize) then
      match nextCount maxsize hand.count o.stats with
      | none => none
      | some count =>
        let tmp := snprintf xnetLognameLen (rotatedName path hand.type tm count)
        some { hand with
          filename := strncpy filenameMax tmp, fp := none, count := count, cursize := 0 }
    else some hand

def fopen (filename : CString) (answer : Bool) : Option CString :=
  if filename = [] ∨ ¬ answer then none else some filename

def line (date msg : CString) : CString := date ++ ": ".toList ++ msg ++ "\n".toList

/-- The handler and what is appended. -/
def writeLog (hand : LogHandler) (date msg : CString) (o : Occasion) :
    LogHandler × List (CString × CString) :=
  match hand.fp.or (fopen hand.filename o.fopen) with
  | none => (hand, [])
  | some f =>
    match o.fprintf with
    | none =>
      ({ hand with fp := some f, cursize := cInt (hand.cursize+(line date msg).length) },
        [(f, line date msg)])
    | some k =>
      ({ hand with fp := some f, cursize := cInt (hand.cursize-1) },
        [(f, (line date msg).take k)])

def LogLevel.tag : LogLevel → CString
  | .info => "[INFO]".toList
  | .debug => "[DEBUG]".toList
  | .warn => "[WARN]".toList
  | .err => "[ERROR]".toList
  | .normal | .none => []

def dateText (level : LogLevel) (tm : Tm) (pid : ℤ) : CString :=
  snprintf 256 (percentD (1900+tm.year) ++ "-".toList ++ percent02D (tm.mon+1) ++ "-".toList ++
    percent02D tm.mday ++ " ".toList ++ percent02D tm.hour ++ ":".toList ++ percent02D tm.min ++
    ":".toList ++ percent02D tm.sec ++ " PID:".toList ++ percentD pid ++ " ".toList ++ level.tag)

def Logger.handler (l : Logger) : LogLevel → LogHandler
  | .err => l.err
  | .normal | .debug | .info | .warn | .none => l.normal

def Logger.setHandler (l : Logger) (hand : LogHandler) : LogLevel → Logger
  | .err => { l with err := hand }
  | .normal | .debug | .info | .warn | .none => { l with normal := hand }

/-- `msg` is what `vasprintf` makes of the arguments, none when it fails. There
is no logger when the loop over the counts has not ended. -/
def loggerLog (l : Logger) (level : LogLevel) (msg : Option CString) (o : Occasion) :
    Option Logger :=
  if level ≠ .err ∧ gLogLevel > level.code then some l else
  match msg with
  | none => some l
  | some msg =>
    match fixLogFilename l.maxsize l.gPathBuf (l.handler level) (cInt (256+msg.length)) o with
    | none => none
    | some hand =>
      let (hand, written) := writeLog hand (dateText level o.date o.pid) msg o
      some { l.setHandler hand level with appended := l.appended ++ written }

def xLog (level most : LogLevel) (l : Logger) (msg : Option CString) (o : Occasion) :
    Option Logger :=
  if ¬ l.isInited then some l else
  if l.isDebug > most.code then some l else
  loggerLog l level msg o

def xLogInfo : Logger → Option CString → Occasion → Option Logger := xLog .info .info

def xLogWarn : Logger → Option CString → Occasion → Option Logger := xLog .warn .warn

def xLogErr : Logger → Option CString → Occasion → Option Logger := xLog .err .none

def xLogDebug (l : Logger) (msg : Option CString) (o : Occasion) : Option Logger :=
  if ¬ l.isInited then some l else
  if l.isDebug > LogLevel.debug.code then some l else
  if l.isDebug ≠ 0 then loggerLog l .debug msg o else some l

end TcpFunnel.Log
