import TcpFunnel.Connection
import TcpFunnel.Library.Custody

/-!
# The configuration

`xtp_conf.c`, and `x_upstream_choose_peer` on the record as it lies in memory.
The XML library is a parameter: a pointer into the parsed tree is an optional
node, and what is absent is read as a null pointer. Blocks are named in the
order in which `zmalloc` gives them out. `zmalloc` ends the process when there
is no memory, so it does not return a null pointer.
-/

set_option autoImplicit false

namespace TcpFunnel.Configuration
open TcpFunnel.BufferPool TcpFunnel.Connection TcpFunnel.Custody TcpFunnel.CInt

/-- What the loader uses of iksemel. `load` tells whether the file was parsed,
and what it left in the pointer to the tree; `children` are the nodes that
`iks_child` and then `iks_next` give. -/
structure Iksemel (Node : Type) where
  load : String → Bool × Option Node
  find : Option Node → String → Option Node
  children : Option Node → List Node
  name : Node → String
  findAttrib : Option Node → String → Option String
  findCdata : Option Node → String → Option String

def isspace (c : Char) : Bool := c = ' ' || (9 ≤ c.toNat && c.toNat ≤ 13)

def digits (n : ℕ) : List Char → ℕ
  | [] => n
  | d::ds => if d.isDigit then digits (10*n+(d.toNat-48)) ds else n

/-- A number beyond the range of a `long` is cut to the end of the range. -/
def strtol (content : String) : ℤ :=
  let n : ℤ :=
    match content.toList.dropWhile isspace with
    | [] => 0
    | c::ds =>
      if c = '-' then -(digits 0 ds) else if c = '+' then digits 0 ds else digits 0 (c::ds)
  max (-9223372036854775808) (min 9223372036854775807 n)

def atoi (content : String) : ℤ := cInt (strtol content)

def number (content : Option String) (byDefault : ℤ) : ℤ :=
  match content with
  | some content => atoi content
  | none => byDefault

def xnetDefaultPidfile : String := "/tmp/xtp.pid"
def connNumMax : ℤ := 655350

structure XtpAccessEntry where
  port : ℤ
  max : ℤ
  timeout : ℤ
  deriving DecidableEq, Repr

/-- `xtp_srvconf_t` with the names of its own block and of the block of the
table. A slot of the table that has not been written holds nothing. The number
of peers and the index are `int`s that count the slots of a table in memory. -/
structure Srvconf (Node : Type) where
  self : ℕ
  pidfile : String
  conf : Option Node
  access : XtpAccessEntry
  upstream : ℕ
  slots : List (Option ℕ)
  upstreamNum : ℕ
  upstreamIndex : ℕ
  workingNumMax : ℤ

inductive Resource where
  | tree
  | block (b : ℕ)
  deriving DecidableEq, Repr

/-- The blocks given out so far, the peer entries among them that have been
filled in, and the history of the blocks and of the tree. -/
structure Arena where
  next : ℕ
  entries : ℕ → Option XtpUpstreamConf
  log : List (Event Resource)

def Arena.empty : Arena := ⟨0, fun _ => none, []⟩

abbrev Loader (α : Type) := EStateM Stop Arena α

def acquire (a : Resource) : Loader Unit := modify fun s => { s with log := s.log ++ [.taken a] }

def release (a : Resource) : Loader Unit := modify fun s => { s with log := s.log ++ [.returned a] }

def zmalloc : Loader ℕ := do
  let b := (← get).next
  modify fun s => { s with next := b+1 }
  acquire (.block b)
  pure b

def zfree (b : ℕ) : Loader Unit := release (.block b)

def fillEntry (b : ℕ) (e : XtpUpstreamConf) : Loader Unit :=
  modify fun s => { s with entries := fun a => if a = b then some e else s.entries a }

variable {Node : Type} (lib : Iksemel Node)

def iksLoad (confFile : String) : Loader (Bool × Option Node) := do
  let (ok, conf) := lib.load confFile
  if conf.isSome then acquire .tree
  pure (ok, conf)

def iksDelete (conf : Option Node) : Loader Unit := do
  if conf.isSome then release .tree

/-- `strchr(iks_name(sub_child), '\n')`. -/
def skipped (subChild : Node) : Bool := (lib.name subChild).toList.contains '\n'

/-- The first loop over the children of `upstream`. -/
def countPeers : List Node → ℕ → ℕ
  | [], upstreamNum => upstreamNum
  | subChild::rest, upstreamNum =>
    if skipped lib subChild then countPeers rest upstreamNum else countPeers rest (upstreamNum+1)

/-- The second loop; nothing when it jumps to `err_todo`. -/
def fillTable : List Node → ℕ → List (Option ℕ) → Loader (Option (List (Option ℕ)))
  | [], _, slots => return some slots
  | subChild::rest, i, slots => do
    if skipped lib subChild then
      fillTable rest i slots
    else
      let b ← zmalloc
      if slots.length ≤ i then throw .wildPointer
      let slots := slots.set i (some b)
      match lib.findAttrib (some subChild) "ip" with
      | none => return none
      | some ip =>
        fillEntry b {
          ip := ip
          port := number (lib.findAttrib (some subChild) "port") 80
          timeout := number (lib.findAttrib (some subChild) "timeout") 60 }
        fillTable rest (i+1) slots

def errTodo (conf : Option Node) (srvconf : Option ℕ) : Loader (Option (Srvconf Node)) := do
  iksDelete conf
  match srvconf with
  | some b => zfree b
  | none => pure ()
  return none

def xServerConfNew (confFile : Option String) : Loader (Option (Srvconf Node)) := do
  match confFile with
  | none => return none
  | some confFile =>
    let (ok, conf) ← iksLoad lib confFile
    if ok = false then
      errTodo conf none
    else
      let self ← zmalloc
      let pidfile := (lib.findCdata conf "pidfile").getD xnetDefaultPidfile
      let server := lib.find conf "server"
      let access := lib.find server "access"
      let upstream := lib.find server "upstream"
      let upstreamNum := countPeers lib (lib.children upstream) 0
      let table ← zmalloc
      match ← fillTable lib (lib.children upstream) 0 (List.replicate upstreamNum none) with
      | none => errTodo conf (some self)
      | some slots =>
        return some {
          self := self
          pidfile := pidfile
          conf := conf
          access := {
            port := number (lib.findAttrib access "port") 9097
            max := number (lib.findAttrib access "max") connNumMax
            timeout := number (lib.findAttrib access "timeout") 60 }
          upstream := table
          slots := slots
          upstreamNum := upstreamNum
          upstreamIndex := 0
          workingNumMax := number (lib.findAttrib upstream "max") connNumMax }

def slot (slots : List (Option ℕ)) (i : ℕ) : Loader ℕ := do
  match slots[i]? with
  | some (some b) => pure b
  | _ => throw .wildPointer

/-- The loop of `x_server_conf_destroy` from `i` on. -/
def freePeers (slots : List (Option ℕ)) (i : ℕ) : ℕ → Loader Unit
  | 0 => return
  | more+1 => do
    zfree (← slot slots i)
    freePeers slots (i+1) more

def xServerConfDestroy (srvconf : Option (Srvconf Node)) : Loader Unit := do
  match srvconf with
  | none => return
  | some srvconf =>
    iksDelete srvconf.conf
    freePeers srvconf.slots 0 srvconf.upstreamNum
    zfree srvconf.upstream
    zfree srvconf.self

/-- The entry that is chosen, and the record with its new index. The entry is
read for the log. -/
def xUpstreamChoosePeer (srvcf : Srvconf Node) : Loader (ℕ × Srvconf Node) := do
  if srvcf.upstreamNum = 0 then throw .divisionByZero
  let i := srvcf.upstreamIndex % srvcf.upstreamNum
  let upcf ← slot srvcf.slots i
  match (← get).entries upcf with
  | some _ => return (upcf, { srvcf with upstreamIndex := i+1 })
  | none => throw .useAfterFree

end TcpFunnel.Configuration
