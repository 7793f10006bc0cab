import TcpFunnel.BufferPool
import TcpFunnel.Library.Links

/-!
# The queue macros

The `STAILQ` and `TAILQ` parts of `queue.h`. The links of an element and of a
head are cells; `back` holds `tqe_prev` of an element and `stqh_last` or
`tqh_last` of a head, which point to cells. Both kinds of pair are laid out
alike, which is what the casts in `TAILQ_LAST` and `TAILQ_PREV` rely on: the
pair that begins at a cell has its second word at `back` of that cell. Heads
are always there, and an access to an element that has been freed stops the
run.
-/

set_option autoImplicit false

namespace TcpFunnel.Queue
open TcpFunnel.BufferPool TcpFunnel.Links

structure Memory (η ν : Type) where
  word : Cell η ν → Option ν
  back : Cell η ν → Option (Cell η ν)
  live : ν → Bool

abbrev Macro (η ν α : Type) := EStateM Stop (Memory η ν) α

variable {η ν : Type}

def owner : Cell η ν → List ν
  | .first _ => []
  | .next x => [x]

def access (c : Cell η ν) : Macro η ν Unit := do
  let m ← get
  if ¬ ∀ x ∈ owner c, m.live x then throw .useAfterFree

def getWord (c : Cell η ν) : Macro η ν (Option ν) := do
  access c
  return (← get).word c

def getBack (c : Cell η ν) : Macro η ν (Option (Cell η ν)) := do
  access c
  return (← get).back c

def pointee {α : Type} : Option α → Macro η ν α
  | none => throw .nullDereference
  | some a => pure a

variable [DecidableEq η] [DecidableEq ν]

def Memory.putWord (m : Memory η ν) (c : Cell η ν) (x : Option ν) : Memory η ν :=
  { m with word := fun d => if d = c then x else m.word d }

def Memory.putBack (m : Memory η ν) (c d : Cell η ν) : Memory η ν :=
  { m with back := fun e => if e = c then some d else m.back e }

def setWord (c : Cell η ν) (x : Option ν) : Macro η ν Unit := do
  access c
  modify (·.putWord c x)

def setBack (c d : Cell η ν) : Macro η ν Unit := do
  access c
  modify (·.putBack c d)

def stailqInit (head : η) : Macro η ν Unit := do
  setWord (.first head) none
  setBack (.first head) (.first head)

def stailqFirst (head : η) : Macro η ν (Option ν) := getWord (.first head)

def stailqNext (elm : ν) : Macro η ν (Option ν) := getWord (.next elm)

def stailqEmpty (head : η) : Macro η ν Bool := do return (← stailqFirst head) = none

def stailqInsertHead (head : η) (elm : ν) : Macro η ν Unit := do
  let first ← getWord (.first head)
  setWord (.next elm) first
  if first = none then setBack (.first head) (.next elm)
  setWord (.first head) (some elm)

def stailqInsertTail (head : η) (elm : ν) : Macro η ν Unit := do
  setWord (.next elm) none
  setWord (← pointee (← getBack (.first head))) (some elm)
  setBack (.first head) (.next elm)

def stailqInsertAfter (head : η) (listelm elm : ν) : Macro η ν Unit := do
  let next ← getWord (.next listelm)
  setWord (.next elm) next
  if next = none then setBack (.first head) (.next elm)
  setWord (.next listelm) (some elm)

def stailqRemoveHead (head : η) : Macro η ν Unit := do
  let first ← pointee (← getWord (.first head))
  let next ← getWord (.next first)
  setWord (.first head) next
  if next = none then setBack (.first head) (.first head)

/-- `while (curelm->next != elm) curelm = curelm->next`. One unit of the first
argument is one turn. -/
def findBefore (elm : ν) : ℕ → Option ν → Macro η ν ν
  | 0, _ => throw .pending
  | turns+1, curelm => do
    let curelm ← pointee curelm
    let next ← getWord (.next curelm)
    if next ≠ some elm then findBefore elm turns next else pure curelm

/-- An element of the queue is found within as many turns as there are
elements. -/
def stailqRemove (turns : ℕ) (head : η) (elm : ν) : Macro η ν Unit := do
  if (← getWord (.first head)) = some elm then
    stailqRemoveHead head
  else
    let curelm ← findBefore elm turns (← getWord (.first head))
    let removed ← pointee (← getWord (.next curelm))
    let next ← getWord (.next removed)
    setWord (.next curelm) next
    if next = none then setBack (.first head) (.next curelm)

def stailqConcat (head1 head2 : η) : Macro η ν Unit := do
  if ¬ (← stailqEmpty head2) then
    let last ← pointee (← getBack (.first head1))
    setWord last (← getWord (.first head2))
    setBack (.first head1) (← pointee (← getBack (.first head2)))
    stailqInit head2

/-- The last cell is taken for the one in an element, which it is not when it
lies in the head. -/
def stailqLast (head : η) : Macro η ν (Option ν) := do
  if ← stailqEmpty head then
    return none
  else
    match ← getBack (.first head) with
    | some (.next x) => return some x
    | some (.first _) => throw .wildPointer
    | none => throw .wildPointer

/-- The elements a `FOREACH` loop visits, at most `turns` of them. -/
def visitFrom : ℕ → Option ν → Macro η ν (List ν)
  | _, none => return []
  | 0, some _ => throw .pending
  | turns+1, some var => do
    let rest ← visitFrom turns (← getWord (.next var))
    return var::rest

def stailqForeach (turns : ℕ) (head : η) : Macro η ν (List ν) := do
  visitFrom turns (← stailqFirst head)

def tailqInit (head : η) : Macro η ν Unit := do
  setWord (.first head) none
  setBack (.first head) (.first head)

def tailqFirst (head : η) : Macro η ν (Option ν) := getWord (.first head)

def tailqNext (elm : ν) : Macro η ν (Option ν) := getWord (.next elm)

def tailqEmpty (head : η) : Macro η ν Bool := do return (← tailqFirst head) = none

/-- `*(((struct headname *)p)->tqh_last)` for the second word `p` of a pair. -/
def wordBehind (p : Option (Cell η ν)) : Macro η ν (Option ν) := do
  let pair ← pointee p
  let last ← pointee (← getBack pair)
  getWord last

def tailqLast (head : η) : Macro η ν (Option ν) := do wordBehind (← getBack (.first head))

def tailqPrev (elm : ν) : Macro η ν (Option ν) := do wordBehind (← getBack (.next elm))

def tailqInsertHead (head : η) (elm : ν) : Macro η ν Unit := do
  let first ← getWord (.first head)
  setWord (.next elm) first
  match first with
  | some x => setBack (.next x) (.next elm)
  | none => setBack (.first head) (.next elm)
  setWord (.first head) (some elm)
  setBack (.next elm) (.first head)

def tailqInsertTail (head : η) (elm : ν) : Macro η ν Unit := do
  setWord (.next elm) none
  let last ← getBack (.first head)
  setBack (.next elm) (← pointee last)
  setWord (← pointee last) (some elm)
  setBack (.first head) (.next elm)

def tailqInsertAfter (head : η) (listelm elm : ν) : Macro η ν Unit := do
  let next ← getWord (.next listelm)
  setWord (.next elm) next
  match next with
  | some x => setBack (.next x) (.next elm)
  | none => setBack (.first head) (.next elm)
  setWord (.next listelm) (some elm)
  setBack (.next elm) (.next listelm)

def tailqInsertBefore (listelm elm : ν) : Macro η ν Unit := do
  let prev ← pointee (← getBack (.next listelm))
  setBack (.next elm) prev
  setWord (.next elm) (some listelm)
  setWord prev (some elm)
  setBack (.next listelm) (.next elm)

def tailqRemove (head : η) (elm : ν) : Macro η ν Unit := do
  let next ← getWord (.next elm)
  let prev ← getBack (.next elm)
  match next with
  | some x => setBack (.next x) (← pointee prev)
  | none => setBack (.first head) (← pointee prev)
  setWord (← pointee prev) next

def tailqReplace (head : η) (elm elm2 : ν) : Macro η ν Unit := do
  let next ← getWord (.next elm)
  setWord (.next elm2) next
  match next with
  | some x => setBack (.next x) (.next elm2)
  | none => setBack (.first head) (.next elm2)
  let prev ← pointee (← getBack (.next elm))
  setBack (.next elm2) prev
  setWord prev (some elm2)

def tailqConcat (head1 head2 : η) : Macro η ν Unit := do
  match ← tailqFirst head2 with
  | none => pure ()
  | some x =>
    let last ← pointee (← getBack (.first head1))
    setWord last (some x)
    setBack (.next x) last
    setBack (.first head1) (← pointee (← getBack (.first head2)))
    tailqInit head2

def tailqForeach (turns : ℕ) (head : η) : Macro η ν (List ν) := do
  visitFrom turns (← tailqFirst head)

def visitBack : ℕ → Option ν → Macro η ν (List ν)
  | _, none => return []
  | 0, some _ => throw .pending
  | turns+1, some var => do
    let rest ← visitBack turns (← tailqPrev var)
    return var::rest

def tailqForeachReverse (turns : ℕ) (head : η) : Macro η ν (List ν) := do
  visitBack turns (← tailqLast head)

end TcpFunnel.Queue
