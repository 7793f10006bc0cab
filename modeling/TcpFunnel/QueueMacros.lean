import TcpFunnel.QueueRefinement

/-!
# What each queue macro writes

One lemma for each macro. The cell in front of the place where a macro edits is
given by the head, by an element or by `tqe_prev`, and the macros that differ
in that only share theirs.
-/

set_option autoImplicit false

namespace TcpFunnel.QueueMacros
open TcpFunnel.BufferPool TcpFunnel.Links TcpFunnel.Queue TcpFunnel.QueueRefinement

variable {η ν : Type} [DecidableEq η] [DecidableEq ν]
variable {kind : Kind} {m : Memory η ν} {head head1 head2 : η} {ys : List ν} {x y : ν}
variable {c d : Cell η ν}

/-- `STAILQ_INSERT_HEAD` and `STAILQ_INSERT_AFTER`, each with its cell. -/
def stailqLink (head : η) (c : Cell η ν) (elm : ν) : Macro η ν Unit := do
  let next ← getWord c
  setWord (.next elm) next
  if next = none then setBack (.first head) (.next elm)
  setWord c (some elm)

theorem stailqLink_run (head : η) (hc : Has m c) (hx : m.live x = true) (hcx : c ≠ .next x) :
    ∃ m', (stailqLink head c x).run m = .ok () m' ∧ LinkedIn .stailq m m' head c x := by
  have hnew : Has m (.next x) := has_next.mpr hx
  have hxc : .next x ≠ c := hcx.symm
  unfold stailqLink
  by_cases hw : m.word c = none
  · refine ⟨((m.putWord (.next x) none).putBack (.first head) (.next x)).putWord c (some x), ?_, ?_⟩
    · simp [EStateM.run_bind, getWord_run, setWord_run, setBack_run, hc, hnew, hw]
    · constructor <;> simp_all
  · refine ⟨(m.putWord (.next x) (m.word c)).putWord c (some x), ?_, ?_⟩
    · simp [EStateM.run_bind, getWord_run, setWord_run, hc, hnew, hw]
    · constructor <;> simp_all

theorem stailqInsertTail_run (hc : m.back (.first head) = some c) (hw : m.word c = none)
    (hlive : Has m c) (hx : m.live x = true) (hcx : c ≠ .next x) :
    ∃ m', (stailqInsertTail head x).run m = .ok () m' ∧ LinkedIn .stailq m m' head c x := by
  have hnew : Has m (.next x) := has_next.mpr hx
  have hxc : .next x ≠ c := hcx.symm
  unfold stailqInsertTail
  refine ⟨((m.putWord (.next x) none).putWord c (some x)).putBack (.first head) (.next x), ?_, ?_⟩
  · simp [EStateM.run_bind, setWord_run, getBack_run, setBack_run, pointee_run, hc, hlive, hnew]
  · constructor <;> simp_all

/-- `STAILQ_REMOVE_HEAD` and the end of `STAILQ_REMOVE`, each with its cell. -/
def stailqUnlink (head : η) (c : Cell η ν) : Macro η ν Unit := do
  let removed ← pointee (← getWord c)
  let next ← getWord (.next removed)
  setWord c next
  if next = none then setBack (.first head) c

theorem stailqRemoveHead_eq :
    (stailqRemoveHead head : Macro η ν Unit) = stailqUnlink head (.first head) := rfl

theorem stailqUnlink_run (head : η) (hw : m.word c = some x) (hc : Has m c)
    (hx : m.live x = true) :
    ∃ m', (stailqUnlink head c).run m = .ok () m' ∧ LinkedOut .stailq m m' head c x := by
  have helm : Has m (.next x) := has_next.mpr hx
  unfold stailqUnlink
  by_cases hn : m.word (.next x) = none
  · refine ⟨(m.putWord c none).putBack (.first head) c, ?_, ?_⟩
    · simp [EStateM.run_bind, getWord_run, setWord_run, setBack_run, pointee_run, hc, helm, hw, hn]
    · constructor <;> simp_all
  · refine ⟨m.putWord c (m.word (.next x)), ?_, ?_⟩
    · simp [EStateM.run_bind, getWord_run, setWord_run, pointee_run, hc, helm, hw, hn]
    · constructor <;> simp_all

omit [DecidableEq η] in
theorem findBefore_run {turns : ℕ} (hpath : Path m.word (.next y) (ys ++ [x]))
    (hx : x ∉ ys) (hy : m.live y = true) (hlive : ∀ z ∈ ys, m.live z = true)
    (hturns : ys.length < turns) :
    ∃ z, (findBefore x turns (some y)).run m = .ok z m ∧
      lastCell (.next y) ys = (.next z : Cell η ν) ∧ m.live z = true := by
  induction ys generalizing y turns with
  | nil =>
    obtain ⟨turns,rfl⟩ : ∃ k, turns = k+1 := ⟨turns-1, by omega⟩
    refine ⟨y, ?_, rfl, hy⟩
    have hw : m.word (.next y) = some x := hpath.1
    simp [findBefore, EStateM.run_bind, pointee_run, getWord_run, hy, hw]
  | cons z ys ih =>
    obtain ⟨turns,rfl⟩ : ∃ k, turns = k+1 := ⟨turns-1, by omega⟩
    have hw : m.word (.next y) = some z := hpath.1
    have hzx : z ≠ x := fun h => hx (h ▸ List.mem_cons_self ..)
    have hfewer : ys.length < turns := by simpa using hturns
    obtain ⟨u,hrun,hlast,hu⟩ := ih hpath.2 (fun h => hx (List.mem_cons_of_mem _ h))
      (hlive z (List.mem_cons_self ..)) (fun v hv => hlive v (List.mem_cons_of_mem _ hv)) hfewer
    refine ⟨u, ?_, hlast, hu⟩
    simpa [findBefore, EStateM.run_bind, pointee_run, getWord_run, hy, hw, hzx] using hrun

/-- `TAILQ_INSERT_HEAD` and `TAILQ_INSERT_AFTER`, each with its cell. -/
def tailqLink (head : η) (c : Cell η ν) (elm : ν) : Macro η ν Unit := do
  let next ← getWord c
  setWord (.next elm) next
  match next with
  | some x => setBack (.next x) (.next elm)
  | none => setBack (.first head) (.next elm)
  setWord c (some elm)
  setBack (.next elm) c

def behind (head : η) : Option ν → Cell η ν
  | some z => .next z
  | none => .first head

theorem tailqLink_run (head : η) (hc : Has m c) (hx : m.live x = true) (hcx : c ≠ .next x)
    (hz : ∀ z, m.word c = some z → m.live z = true ∧ z ≠ x) :
    ∃ m', (tailqLink head c x).run m = .ok () m' ∧ LinkedIn .tailq m m' head c x := by
  have hxc : .next x ≠ c := hcx.symm
  unfold tailqLink
  refine ⟨(((m.putWord (.next x) (m.word c)).putBack (behind head (m.word c)) (.next x)).putWord c
    (some x)).putBack (.next x) c, ?_, ?_⟩
  · cases hw : m.word c with
    | none => simp [EStateM.run_bind, getWord_run, setWord_run, setBack_run, hc, hx, hw, behind]
    | some z =>
      have hlive : m.live z = true := (hz z hw).1
      simp [EStateM.run_bind, getWord_run, setWord_run, setBack_run, hc, hx, hw, hlive, behind]
  · cases hw : m.word c with
    | none => constructor <;> simp_all [behind]
    | some z =>
      have hzx : z ≠ x := (hz z hw).2
      constructor <;> simp_all [behind]

theorem tailqInsertTail_run (hc : m.back (.first head) = some c) (hw : m.word c = none)
    (hlive : Has m c) (hx : m.live x = true) (hcx : c ≠ .next x) :
    ∃ m', (tailqInsertTail head x).run m = .ok () m' ∧ LinkedIn .tailq m m' head c x := by
  have hxc : .next x ≠ c := hcx.symm
  unfold tailqInsertTail
  refine ⟨(((m.putWord (.next x) none).putBack (.next x) c).putWord c (some x)).putBack
    (.first head) (.next x), ?_, ?_⟩
  · simp [EStateM.run_bind, setWord_run, getBack_run, setBack_run, pointee_run, hc, hlive, hx]
  · constructor <;> simp_all

theorem tailqInsertBefore_run (head : η) (hc : m.back (.next y) = some c)
    (hw : m.word c = some y) (hlive : Has m c) (hx : m.live x = true) (hy : m.live y = true)
    (hcx : c ≠ .next x) (hyx : y ≠ x) :
    ∃ m', (tailqInsertBefore y x).run m = .ok () m' ∧ LinkedIn .tailq m m' head c x := by
  have hxc : .next x ≠ c := hcx.symm
  unfold tailqInsertBefore
  refine ⟨(((m.putBack (.next x) c).putWord (.next x) (some y)).putWord c (some x)).putBack
    (.next y) (.next x), ?_, ?_⟩
  · simp [EStateM.run_bind, setWord_run, getBack_run, setBack_run, pointee_run, hc, hlive, hx,
      hy]
  · constructor <;> simp_all [Ne.symm hyx]

theorem tailqRemove_run (head : η) (hc : m.back (.next x) = some c) (hlive : Has m c)
    (hx : m.live x = true) (hz : ∀ z, m.word (.next x) = some z → m.live z = true) :
    ∃ m', (tailqRemove head x).run m = .ok () m' ∧ LinkedOut .tailq m m' head c x := by
  unfold tailqRemove
  refine ⟨(m.putBack (behind head (m.word (.next x))) c).putWord c (m.word (.next x)), ?_, ?_⟩
  · cases hw : m.word (.next x) with
    | none =>
      simp [EStateM.run_bind, getWord_run, getBack_run, setWord_run, setBack_run, pointee_run, hc,
        hlive, hx, hw, behind]
    | some z =>
      have hzlive : m.live z = true := hz z hw
      simp [EStateM.run_bind, getWord_run, getBack_run, setWord_run, setBack_run, pointee_run, hc,
        hlive, hx, hw, hzlive, behind]
  · cases hw : m.word (.next x) <;> constructor <;> simp_all [behind]

theorem tailqReplace_run (head : η) (hc : m.back (.next x) = some c) (hlive : Has m c)
    (hx : m.live x = true) (hy : m.live y = true) (hcy : c ≠ .next y)
    (hz : ∀ z, m.word (.next x) = some z → m.live z = true ∧ z ≠ x ∧ z ≠ y) :
    ∃ m₁ m', (tailqReplace head x y).run m = .ok () m' ∧ LinkedOut .tailq m m₁ head c x ∧
      LinkedIn .tailq m₁ m' head c y := by
  have hyc : .next y ≠ c := hcy.symm
  obtain ⟨m₁,-,hout⟩ := tailqRemove_run head hc hlive hx fun z hw => (hz z hw).1
  refine ⟨m₁, ((((m.putWord (.next y) (m.word (.next x))).putBack
    (behind head (m.word (.next x))) (.next y)).putBack (.next y) c).putWord c (some y)), ?_, hout,
    ?_⟩
  · unfold tailqReplace
    cases hw : m.word (.next x) with
    | none =>
      simp [EStateM.run_bind, getWord_run, getBack_run, setWord_run, setBack_run, pointee_run, hc,
        hlive, hx, hy, hw, behind]
    | some z =>
      have hzlive : m.live z = true := (hz z hw).1
      have hxz : x ≠ z := (hz z hw).2.1.symm
      simp [EStateM.run_bind, getWord_run, getBack_run, setWord_run, setBack_run, pointee_run, hc,
        hlive, hx, hy, hw, hzlive, hxz, behind]
  · obtain ⟨hhere,hwords,hlast,hbacks,hothers,hlives⟩ := hout
    cases hw : m.word (.next x) with
    | none => constructor <;> simp_all [behind]
    | some z => constructor <;> simp_all [behind]

theorem init_run (kind : Kind) (m : Memory η ν) (head : η) :
    ∃ m', (stailqInit head).run m = .ok () m' ∧ (tailqInit head).run m = .ok () m' ∧
      Queued kind m' head [] ∧ Frame m m' (Within head []) := by
  refine ⟨(m.putWord (.first head) none).putBack (.first head) (.first head), ?_, ?_, ?_, ?_⟩
  · simp [stailqInit, EStateM.run_bind, setWord_run, setBack_run]
  · simp [tailqInit, EStateM.run_bind, setWord_run, setBack_run]
  · exact ⟨List.nodup_nil, chain_nil.mpr (by simp), by simp, fun _ => trivial⟩
  · constructor <;> simp_all [Within]

theorem stailqConcat_empty (hw : m.word (.first head2) = none) :
    (stailqConcat head1 head2).run m = .ok () m := by
  simp [stailqConcat, stailqEmpty, stailqFirst, EStateM.run_bind, getWord_run, hw]

theorem tailqConcat_empty (hw : m.word (.first head2) = none) :
    (tailqConcat head1 head2).run m = .ok () m := by
  simp [tailqConcat, tailqFirst, EStateM.run_bind, getWord_run, hw]

theorem stailqConcat_run (hw : m.word (.first head2) = some x)
    (hc : m.back (.first head1) = some c) (hd : m.back (.first head2) = some d)
    (hne : head1 ≠ head2) (hlive : Has m c) (hcd : c ≠ .first head2) :
    ∃ m', (stailqConcat head1 head2).run m = .ok () m' ∧
      Joined .stailq m m' head1 head2 c := by
  refine ⟨((((m.putWord c (some x)).putBack (.first head1) d).putWord (.first head2) none).putBack
    (.first head2) (.first head2)), ?_, ?_⟩
  · simp [stailqConcat, stailqEmpty, stailqFirst, stailqInit, EStateM.run_bind, getWord_run,
      getBack_run, setWord_run, setBack_run, pointee_run, hw, hc, hd, hlive]
  · have hdc : .first head2 ≠ c := hcd.symm
    constructor <;> simp_all

theorem tailqConcat_run (hw : m.word (.first head2) = some x)
    (hc : m.back (.first head1) = some c) (hd : m.back (.first head2) = some d)
    (hne : head1 ≠ head2) (hlive : Has m c) (hx : m.live x = true) (hcd : c ≠ .first head2) :
    ∃ m', (tailqConcat head1 head2).run m = .ok () m' ∧ Joined .tailq m m' head1 head2 c := by
  refine ⟨(((((m.putWord c (some x)).putBack (.next x) c).putBack (.first head1) d).putWord
    (.first head2) none).putBack (.first head2) (.first head2)), ?_, ?_⟩
  · simp [tailqConcat, tailqFirst, tailqInit, EStateM.run_bind, getWord_run,
      getBack_run, setWord_run, setBack_run, pointee_run, hw, hc, hd, hlive, hx]
  · have hdc : .first head2 ≠ c := hcd.symm
    constructor <;> simp_all

end TcpFunnel.QueueMacros
