import TcpFunnel.BufferPool
import TcpFunnel.LogRuns

/-!
# The table of log handlers

`log.c` with `logger.handler` as it is: five slots that point to handlers in
memory, of which the first four point to one handler until `change_log_path`
gives a level its own. Two links lead to files that were opened last. The
directory is part of the state, so far as the links in it go.
-/

set_option autoImplicit false

namespace TcpFunnel.HandlerTable
open TcpFunnel.BufferPool TcpFunnel.CInt TcpFunnel.Log TcpFunnel.LogRuns

abbrev HandId := ℕ

/-- `handler i` is the slot `i`, for `i` from 0 to 4. -/
structure LogTable where
  maxsize : ℤ
  isDebug : ℤ
  isInited : Bool
  gPathBuf : CString
  gErrLinkPath : CString
  gNorLinkPath : CString
  handlers : Store LogHandler
  handler : ℤ → Option HandId
  appended : List (CString × CString)
  links : CString → Option CString

abbrev Logging (α : Type) := EStateM Stop LogTable α

structure Answer extends Occasion where
  unlink : Bool
  link : Bool
  deriving DecidableEq, Repr

def hand (h : HandId) : Logging LogHandler := do
  match (← get).handlers.get h with
  | some r => pure r
  | none => throw .useAfterFree

def setHand (h : HandId) (r : LogHandler) : Logging Unit := do
  let _ ← hand h
  modify fun t => { t with handlers := t.handlers.set h r }

def setSlot (i : ℤ) (h : HandId) : Logging Unit :=
  modify fun t => { t with handler := fun j => if j = i then some h else t.handler j }

/-- `calloc` and the type that is written into the new handler. -/
def newHandler (calloc : Bool) (type : ℤ) : Logging HandId := do
  if ¬ calloc then throw .nullDereference
  let h := (← get).handlers.next
  modify fun t => { t with handlers := t.handlers.push (freshHandler type) }
  pure h

def nameHandler (h : HandId) (now : Reading) : Logging Unit := do
  setHand h (Log.initFilename (← get).gPathBuf now (← hand h))

/-- The answers of `opendir` or `mkdir` for the two directories, and those of
`calloc` for the two handlers. -/
def loggerInit (filesize isDebug : ℤ) (root : Option CString) (cwd : CString)
    (logDir errorDir calloc0 calloc4 : Bool) (now : Reading) : Logging Unit := do
  let path := (root.map (strncpy xnetPathLen)).getD cwd
  modify fun t => { t with gPathBuf := path, gErrLinkPath := [], gNorLinkPath := [] }
  if ¬ logDir ∨ ¬ errorDir then return
  modify fun t => { t with
    isInited := true, isDebug := isDebug, maxsize := cInt (filesize*1024*1024) }
  let h0 ← newHandler calloc0 0
  setSlot 0 h0
  setSlot 1 h0
  setSlot 2 h0
  setSlot 3 h0
  let h4 ← newHandler calloc4 4
  setSlot 4 h4
  nameHandler h4 now
  nameHandler h0 now

def setLogLevel (level : ℤ) : Logging Unit := modify fun t => { t with isDebug := level }

def changeLogPath (level : ℤ) (calloc : Bool) (now : Reading) : Logging Unit := do
  if level ≤ 0 ∨ level = 4 ∨ 5 ≤ level then return
  let h ← newHandler calloc level
  setSlot level h
  nameHandler h now

def errLinkPath (path : CString) : CString :=
  snprintf xnetPathLen (path ++ "/error/error.log".toList)

def norLinkPath (path : CString) : CString := snprintf xnetPathLen (path ++ "/log/Disp.log".toList)

/-- The loop over the counts is `pending` as long as it has not ended. -/
def fixLogFilename (h : HandId) (msgSize : ℤ) (o : Occasion) : Logging Unit := do
  let t ← get
  let r ← hand h
  if o.now.tm.isSome then
    if r.type = LogLevel.err.code then
      modify fun t => { t with gErrLinkPath := errLinkPath t.gPathBuf }
    else
      modify fun t => { t with gNorLinkPath := norLinkPath t.gPathBuf }
  match Log.fixLogFilename t.maxsize t.gPathBuf r msgSize o with
  | none => throw .pending
  | some r => setHand h r

/-- `unlink` and `link`. There is nothing to remove under a name without a link,
and a name that is still there, or empty, cannot be linked. -/
def relink (links : CString → Option CString) (name file : CString) (unlink link : Bool) :
    CString → Option CString :=
  let links := fun g => if g = name ∧ unlink then none else links g
  if link ∧ name ≠ [] ∧ links name = none then fun g => if g = name then some file else links g
  else links

def writeLog (h : HandId) (date msg : CString) (o : Answer) : Logging Unit := do
  let r ← hand h
  if r.fp = none ∧ (fopen r.filename o.fopen).isSome then
    let t ← get
    let name := if "error".toList <:+: r.filename then t.gErrLinkPath else t.gNorLinkPath
    set { t with links := relink t.links name r.filename o.unlink o.link }
  let (r, written) := Log.writeLog r date msg o.toOccasion
  setHand h r
  modify fun t => { t with appended := t.appended ++ written }

def loggerLog (level : LogLevel) (msg : Option CString) (o : Answer) : Logging Unit := do
  match (← get).handler level.code with
  | none => return
  | some h =>
    if level ≠ .err ∧ gLogLevel > level.code then return
    match msg with
    | none => return
    | some msg =>
      fixLogFilename h (cInt (256+msg.length)) o.toOccasion
      writeLog h (dateText level o.date o.pid) msg o

def xLog (level most : LogLevel) (msg : Option CString) (o : Answer) : Logging Unit := do
  if ¬ (← get).isInited then return
  if (← get).isDebug > most.code then return
  loggerLog level msg o

def xLogInfo : Option CString → Answer → Logging Unit := xLog .info .info

def xLogWarn : Option CString → Answer → Logging Unit := xLog .warn .warn

def xLogErr : Option CString → Answer → Logging Unit := xLog .err .none

def xLogDebug (msg : Option CString) (o : Answer) : Logging Unit := do
  if ¬ (← get).isInited then return
  if (← get).isDebug > LogLevel.debug.code then return
  if (← get).isDebug ≠ 0 then loggerLog .debug msg o

/-- One turn of the loop in `x_log_free`. -/
def freeSlot (i : ℤ) : Logging Unit := do
  match (← get).handler i with
  | none => return
  | some h =>
    let r ← hand h
    if r.type = i then
      if r.fp.isSome then setHand h { r with fp := none }
      let _ ← hand h
      modify fun t => { t with handlers := t.handlers.free h }

def freeSlots : ℕ → Logging Unit
  | 0 => return
  | i+1 => do
    freeSlot i
    freeSlots i

/-- `x_log_free`. The slots keep their pointers. -/
def xLogFree : Logging Unit := freeSlots 5

end TcpFunnel.HandlerTable
