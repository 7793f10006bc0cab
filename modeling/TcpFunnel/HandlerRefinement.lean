import TcpFunnel.HandlerOwnership

/-!
# The table and the two handlers

As long as no level is given a path of its own, the table of five slots behaves
like a logger with one handler for the errors and one for all other messages. Both
return after the same events, and then they have the same handlers and have
appended the same lines.
-/

set_option autoImplicit false

namespace TcpFunnel.HandlerRefinement
open TcpFunnel.BufferPool TcpFunnel.CInt TcpFunnel.Log
open TcpFunnel.HandlerTable (LogTable HandId Answer)
open TcpFunnel.HandlerRuns TcpFunnel.HandlerOwnership
open TcpFunnel.LogRuns (Entry LogCall handler_normal setHandler_normal)

structure Shows (t : LogTable) (l : Logger) : Prop where
  maxsize : t.maxsize = l.maxsize
  isDebug : t.isDebug = l.isDebug
  isInited : t.isInited = l.isInited
  gPathBuf : t.gPathBuf = l.gPathBuf
  handler : t.handler = initSlots
  normal : t.handlers.get 0 = some l.normal
  err : t.handlers.get 1 = some l.err
  appended : t.appended = l.appended

/-- The event of the logger, when the path of no level is changed. -/
def plain : HandlerRuns.Event → List LogRuns.Event
  | .log c msg o => [.log c msg o.toOccasion]
  | .setLogLevel level => [.setLogLevel level]
  | .changeLogPath .. => []

def handle (t : LogTable) (e : HandlerRuns.Event) : Option LogTable :=
  match (perform e).run t with
  | .ok () t' => some t'
  | .error .. => none

variable {t t' : LogTable} {l l' : Logger} {e : HandlerRuns.Event} {c : LogCall}

def Agree (a : Option LogTable) (b : Option Logger) : Prop :=
  (∃ t l, a = some t ∧ b = some l ∧ Shows t l) ∨ a = none ∧ b = none

theorem shows_slot (hS : Shows t l) (c : LogCall) : ∃ h, t.handler c.level.code = some h ∧
    t.handlers.get h = some (l.handler c.level) := by
  rw [hS.handler]
  cases c with
  | err => exact ⟨1, rfl, hS.err⟩
  | info | warn | debug => exact ⟨0, rfl, hS.normal⟩

theorem shows_logged {h : HandId} {r : LogHandler} {entry : Entry} {o : Answer} (hS : Shows t l)
    (hslot : t.handler c.level.code = some h) :
    Shows (logged t h r entry o) { l.setHandler (entry.written r).1 c.level with
      appended := l.appended ++ (entry.written r).2 } := by
  obtain ⟨hhandler,hpath,hmax,hdebug,hinit⟩ :=
    @logged_frame t h r entry o
  rw [hS.handler] at hslot
  have happended : (logged t h r entry o).appended = l.appended ++ (entry.written r).2 :=
    congrArg (· ++ (entry.written r).2) hS.appended
  have hget : ∀ k, (logged t h r entry o).handlers.get k =
      if k = h then some (entry.written r).1 else t.handlers.get k := fun _ => rfl
  by_cases herr : c.level = .err
  · rw [herr] at hslot ⊢
    cases hslot
    exact ⟨hmax.trans hS.maxsize, hdebug.trans hS.isDebug, hinit.trans hS.isInited,
      hpath.trans hS.gPathBuf, hhandler.trans hS.handler, hS.normal, rfl, happended⟩
  · have hzero : h = 0 := by
      cases c with
      | err => exact absurd rfl herr
      | info | warn | debug => exact (Option.some.inj hslot).symm
    subst hzero
    rw [setHandler_normal herr]
    exact ⟨hmax.trans hS.maxsize, hdebug.trans hS.isDebug, hinit.trans hS.isInited,
      hpath.trans hS.gPathBuf, hhandler.trans hS.handler, rfl, hS.err, happended⟩

theorem shows_passes (hS : Shows t l) : Passes t c ↔ c.Passes l := by
  rw [Passes, LogCall.Passes, hS.isInited, hS.isDebug]

theorem handle_log (hS : Shows t l) (c : LogCall) (msg : Option CString) (o : Answer) :
    Agree (handle t (.log c msg o)) (c.run l msg o.toOccasion) := by
  have hstay : ∀ {x : Option Logger}, (perform (.log c msg o)).run t = .ok () t → x = some l →
      Agree (handle t (.log c msg o)) x := by
    intro x hrun hx
    exact .inl ⟨t, l, by rw [handle, hrun], hx, hS⟩
  rw [LogRuns.call_run]
  by_cases hpass : Passes t c
  · rw [if_pos ((shows_passes hS).mp hpass)]
    cases msg with
    | none =>
      apply hstay
      · rw [perform_log, if_pos hpass, loggerLog_none]
      · exact LogRuns.loggerLog_none ..
    | some msg =>
      obtain ⟨h,hslot,hr⟩ := shows_slot hS c
      have hfixed : (⟨c.level, msg, o.toOccasion⟩ : Entry).fixed l =
          fixLogFilename t.maxsize t.gPathBuf (l.handler c.level) (cInt (256+msg.length))
            o.toOccasion := by
        rw [Entry.fixed, hS.maxsize, hS.gPathBuf]
        rfl
      rw [LogRuns.loggerLog_some, hfixed, handle, perform_log, if_pos hpass, loggerLog_run hslot hr]
      cases fixLogFilename t.maxsize t.gPathBuf (l.handler c.level) (cInt (256+msg.length))
          o.toOccasion with
      | none => exact .inr ⟨rfl, rfl⟩
      | some r => exact .inl ⟨_, _, rfl, rfl, shows_logged hS hslot⟩
  · rw [if_neg (mt (shows_passes hS).mpr hpass)]
    exact hstay (by rw [perform_log, if_neg hpass]) rfl

theorem handle_agrees (hS : Shows t l) (hnone : e.changes = []) :
    Agree (handle t e) ((plain e).foldlM LogRuns.Event.run l) := by
  cases e with
  | setLogLevel level =>
    have hset : Shows { t with isDebug := level } (setLogLevel l level) :=
      ⟨hS.maxsize, rfl, hS.isInited, hS.gPathBuf, hS.handler, hS.normal, hS.err, hS.appended⟩
    exact .inl ⟨_, _, rfl, rfl, hset⟩
  | changeLogPath level calloc now =>
    have hlevel : ¬ Changeable level := by
      intro hlevel
      rw [Event.changes, if_pos hlevel] at hnone
      cases hnone
    have hrun : (perform (.changeLogPath level calloc now)).run t = .ok () t :=
      changeLogPath_ignored hlevel
    exact .inl ⟨t, l, by rw [handle, hrun], rfl, hS⟩
  | log c msg o =>
    have hone : (plain (.log c msg o)).foldlM LogRuns.Event.run l = c.run l msg o.toOccasion := by
      simp [plain, LogRuns.Event.run]
    rw [hone]
    exact handle_log hS c msg o

theorem runs_agree (es : List HandlerRuns.Event) (hplain : ∀ e ∈ es, e.changes = [])
    (hS : Shows t l) :
    Agree (es.foldlM handle t) ((es.flatMap plain).foldlM LogRuns.Event.run l) := by
  induction es generalizing t l with
  | nil => exact .inl ⟨t, l, rfl, rfl, hS⟩
  | cons e es ih =>
    rw [List.foldlM_cons, List.flatMap_cons, List.foldlM_append]
    rcases handle_agrees hS (hplain e (by simp)) with ⟨t',l',ht,hl,hS'⟩ | ⟨ht,hl⟩
    · rw [ht, hl]
      exact ih (fun e he => hplain e (by simp [he])) hS'
    · rw [ht, hl]
      exact .inr ⟨rfl, rfl⟩

/-- From `logger_init` on, the table and the two handlers agree. -/
theorem table_refines_logger {filesize isDebug : ℤ} {root : Option CString} {cwd : CString}
    {now : Reading} {links : CString → Option CString} {es : List HandlerRuns.Event}
    (hinit : loggerInit filesize isDebug root cwd true true now = some l)
    (hplain : ∀ e ∈ es, e.changes = []) :
    ∃ t, (HandlerTable.loggerInit filesize isDebug root cwd true true true true now).run
        (unset links) = .ok () t ∧
      Agree (es.foldlM handle t) ((es.flatMap plain).foldlM LogRuns.Event.run l) := by
  refine ⟨_, loggerInit_run, runs_agree es hplain ?_⟩
  cases hinit
  exact ⟨rfl, rfl, rfl, rfl, rfl, rfl, rfl, rfl⟩

def quieter : List HandlerRuns.Event :=
  [.log .info (some "a".toList) noon, .changeLogPath 4 true noon.now, .setLogLevel 3,
    .log .err (some "b".toList) noon, .log .info (some "c".toList) noon]

theorem table_refines_logger_quieter : ∃ t t' l,
    (HandlerTable.loggerInit 100 1 (some "/srv".toList) [] true true true true noon.now).run
      (unset fun _ => none) = .ok () t ∧
    quieter.foldlM handle t = some t' ∧ Shows t' l ∧ l.appended.length = 2 := by
  obtain ⟨l,hl⟩ : ∃ l, loggerInit 100 1 (some "/srv".toList) [] true true noon.now = some l :=
    ⟨_, rfl⟩
  have hlines : ((loggerInit 100 1 (some "/srv".toList) [] true true noon.now).bind fun l =>
      (quieter.flatMap plain).foldlM LogRuns.Event.run l).map (·.appended.length) = some 2 := by
    decide +kernel
  rw [hl, Option.bind_some] at hlines
  obtain ⟨t,hrun,⟨t',l',ht,hl',hS⟩ | ⟨-,hnone⟩⟩ :=
    @table_refines_logger l 100 1 (some "/srv".toList) [] noon.now (fun _ => none) quieter hl
      (by decide)
  · rw [hl'] at hlines
    exact ⟨t, t', l', hrun, ht, hS, Option.some.inj hlines⟩
  · rw [hnone] at hlines
    cases hlines

end TcpFunnel.HandlerRefinement
