import TcpFunnel.Configuration

/-!
# Runs of the loader

The second pass fills the table exactly when every child that the first pass
has counted has an address. Otherwise it stops at the first one without, and
what it has obtained by then is known to nobody.
-/

set_option autoImplicit false

namespace TcpFunnel.LoaderRuns
open TcpFunnel.BufferPool TcpFunnel.Connection TcpFunnel.Custody TcpFunnel.Configuration

variable {Node : Type} (lib : Iksemel Node)

def counted (nodes : List Node) : List Node := nodes.filter fun n => !skipped lib n

def peerNodes (conf : Option Node) : List Node :=
  counted lib (lib.children (lib.find (lib.find conf "server") "upstream"))

def peerConf (n : Node) : Option XtpUpstreamConf :=
  (lib.findAttrib (some n) "ip").map fun ip => {
    ip := ip
    port := number (lib.findAttrib (some n) "port") 80
    timeout := number (lib.findAttrib (some n) "timeout") 60 }

def Addressed (nodes : List Node) : Prop := ∀ n ∈ nodes, (lib.findAttrib (some n) "ip").isSome

variable {lib} {n : Node} {nodes : List Node} {s : Arena}

theorem peerConf_isSome : (peerConf lib n).isSome = (lib.findAttrib (some n) "ip").isSome :=
  Option.isSome_map

theorem counted_skip (h : skipped lib n = true) : counted lib (n::nodes) = counted lib nodes := by
  simp [counted, h]

theorem counted_keep (h : skipped lib n = false) :
    counted lib (n::nodes) = n :: counted lib nodes := by
  simp [counted, h]

theorem countPeers_eq (nodes : List Node) (k : ℕ) :
    countPeers lib nodes k = k + (counted lib nodes).length := by
  induction nodes generalizing k with
  | nil => rfl
  | cons n nodes ih =>
    unfold countPeers
    cases h : skipped lib n with
    | true => simp only [if_true, ih, counted_skip h]
    | false =>
      simp only [ih, counted_keep h, List.length_cons]
      rw [if_neg (by simp)]
      omega

section arena

def acquired (s : Arena) (a : Resource) : Arena := { s with log := s.log ++ [.taken a] }

def released (s : Arena) (a : Resource) : Arena := { s with log := s.log ++ [.returned a] }

theorem zmalloc_run (s : Arena) :
    zmalloc.run s = .ok s.next (acquired { s with next := s.next+1 } (.block s.next)) := rfl

theorem zfree_run (b : ℕ) (s : Arena) : (zfree b).run s = .ok () (released s (.block b)) := rfl

def treeOf (conf : Option Node) : List Resource := if conf.isSome then [.tree] else []

theorem iksLoad_run {f : String} {ok : Bool} {conf : Option Node} (h : lib.load f = (ok, conf))
    (s : Arena) : (iksLoad lib f).run s =
      .ok (ok, conf) { s with log := s.log ++ (treeOf conf).map .taken } := by
  unfold iksLoad
  rw [h]
  cases conf with
  | none => simp [treeOf, EStateM.run]; rfl
  | some n => rfl

theorem iksDelete_run (conf : Option Node) (s : Arena) :
    (iksDelete conf).run s = .ok () { s with log := s.log ++ (treeOf conf).map .returned } := by
  unfold iksDelete
  cases conf with
  | none => simp [treeOf, EStateM.run]; rfl
  | some n => rfl

end arena

def stored (lib : Iksemel Node) (s : Arena) (n : Node) : Arena where
  next := s.next+1
  entries := fun a => if a = s.next then peerConf lib n else s.entries a
  log := s.log ++ [.taken (.block s.next)]

def storedAll (lib : Iksemel Node) (s : Arena) (nodes : List Node) : Arena :=
  nodes.foldl (stored lib) s

def takings (b k : ℕ) : List (Event Resource) := (List.range' b k).map fun a => .taken (.block a)

theorem takings_succ (b k : ℕ) : takings b (k+1) = .taken (.block b) :: takings (b+1) k := by
  simp [takings, List.range'_succ]

theorem storedAll_log (nodes : List Node) (s : Arena) :
    (storedAll lib s nodes).log = s.log ++ takings s.next nodes.length := by
  induction nodes generalizing s with
  | nil => simp [storedAll, takings]
  | cons n nodes ih =>
    have hrest := ih (stored lib s n)
    simp only [storedAll, List.foldl_cons, List.length_cons] at hrest ⊢
    rw [hrest, takings_succ]
    simp [stored]

theorem storedAll_old (nodes : List Node) (s : Arena) {b : ℕ} (h : b < s.next) :
    (storedAll lib s nodes).entries b = s.entries b := by
  induction nodes generalizing s with
  | nil => rfl
  | cons n nodes ih =>
    have hrest := ih (stored lib s n) (Nat.lt_succ_of_lt h)
    have hne : b ≠ s.next := Nat.ne_of_lt h
    simp only [storedAll, List.foldl_cons] at hrest ⊢
    rw [hrest]
    simp [stored, hne]

theorem storedAll_entry (nodes : List Node) (s : Arena) {i : ℕ} {n : Node}
    (h : nodes[i]? = some n) : (storedAll lib s nodes).entries (s.next+i) = peerConf lib n := by
  induction nodes generalizing s i with
  | nil => simp at h
  | cons m nodes ih =>
    cases i with
    | zero =>
      obtain rfl : m = n := by simpa using h
      have hold : (storedAll lib (stored lib s m) nodes).entries s.next =
          (stored lib s m).entries s.next :=
        storedAll_old nodes (stored lib s m) (Nat.lt_succ_self s.next)
      simp only [storedAll, List.foldl_cons, Nat.add_zero] at hold ⊢
      rw [hold]
      simp [stored]
    | succ i =>
      have hrest := ih (stored lib s m) (i := i) (by simpa using h)
      have hnext : (stored lib s m).next + i = s.next + (i+1) := by
        simp only [stored]
        omega
      rw [hnext] at hrest
      exact hrest

theorem fillTable_skip (h : skipped lib n = true) (i : ℕ) (slots : List (Option ℕ)) :
    fillTable lib (n::nodes) i slots = fillTable lib nodes i slots := by
  conv_lhs => unfold fillTable
  rw [if_pos h]

theorem fillTable_keep (h : skipped lib n = false) {i : ℕ} {slots : List (Option ℕ)}
    (hi : i < slots.length) (hn : (peerConf lib n).isSome) :
    (fillTable lib (n::nodes) i slots).run s =
      (fillTable lib nodes (i+1) (slots.set i (some s.next))).run (stored lib s n) := by
  obtain ⟨e,he⟩ := Option.isSome_iff_exists.mp hn
  obtain ⟨ip,hip,he'⟩ := Option.map_eq_some_iff.mp he
  have hstored : stored lib s n = { acquired { s with next := s.next+1 } (.block s.next) with
      entries := fun a => if a = s.next then some e else s.entries a } := by
    simp [stored, acquired, he]
  conv_lhs => unfold fillTable
  rw [if_neg (by simp [h])]
  simp only [EStateM.run_bind, zmalloc_run, if_neg (Nat.not_le.mpr hi), hip]
  rw [hstored, ← he']
  rfl

theorem fillTable_stops (h : skipped lib n = false) {i : ℕ} {slots : List (Option ℕ)}
    (hi : i < slots.length) (hn : peerConf lib n = none) :
    (fillTable lib (n::nodes) i slots).run s =
      .ok none (acquired { s with next := s.next+1 } (.block s.next)) := by
  have hip : lib.findAttrib (some n) "ip" = none := Option.map_eq_none_iff.mp hn
  unfold fillTable
  rw [if_neg (by simp [h])]
  simp only [EStateM.run_bind, zmalloc_run, if_neg (Nat.not_le.mpr hi), hip]
  rfl

theorem fillTable_run (nodes : List Node) (filled : List (Option ℕ)) (s : Arena)
    (h : Addressed lib (counted lib nodes)) :
    (fillTable lib nodes filled.length
      (filled ++ List.replicate (counted lib nodes).length none)).run s =
    .ok (some (filled ++ (List.range' s.next (counted lib nodes).length).map some))
      (storedAll lib s (counted lib nodes)) := by
  induction nodes generalizing filled s with
  | nil => simp [counted, fillTable, storedAll]
  | cons n nodes ih =>
    cases hskip : skipped lib n with
    | true =>
      rw [fillTable_skip hskip, counted_skip hskip]
      rw [counted_skip hskip] at h
      exact ih filled s h
    | false =>
      rw [counted_keep hskip] at h ⊢
      have hn : (peerConf lib n).isSome := peerConf_isSome.trans (h n (List.mem_cons_self ..))
      have hrest := ih (filled ++ [some s.next]) (stored lib s n)
        (fun m hm => h m (List.mem_cons_of_mem n hm))
      rw [fillTable_keep hskip (by simp) hn]
      simp only [List.length_append, List.append_assoc, List.singleton_append] at hrest
      rw [List.length_cons, List.replicate_succ, List.set_append_right _ _ (Nat.le_refl _),
        Nat.sub_self, List.set_cons_zero, List.range'_succ]
      exact hrest

/-- The pass has obtained some blocks when it meets a child without an
address, and none of them is given back. -/
theorem fillTable_fails (nodes : List Node) (i : ℕ) (slots : List (Option ℕ)) (s : Arena)
    (hi : i + (counted lib nodes).length ≤ slots.length)
    (h : ¬ Addressed lib (counted lib nodes)) :
    ∃ s' k, (fillTable lib nodes i slots).run s = .ok none s' ∧
      s'.log = s.log ++ takings s.next k := by
  induction nodes generalizing i slots s with
  | nil => exact absurd (by simp [Addressed, counted]) h
  | cons n nodes ih =>
    cases hskip : skipped lib n with
    | true =>
      rw [counted_skip hskip] at h hi
      rw [fillTable_skip hskip]
      exact ih i slots s hi h
    | false =>
      rw [counted_keep hskip] at h hi
      have hlt : i < slots.length := by
        rw [List.length_cons] at hi
        omega
      cases hn : peerConf lib n with
      | none =>
        rw [fillTable_stops hskip hlt hn]
        exact ⟨_, 1, rfl, rfl⟩
      | some e =>
        have hsome : (peerConf lib n).isSome := by simp [hn]
        have hrest : ¬ Addressed lib (counted lib nodes) := by
          intro hall
          apply h
          intro m hm
          rcases List.mem_cons.mp hm with rfl | hm
          · exact peerConf_isSome.symm.trans hsome
          · exact hall m hm
        rw [List.length_cons] at hi
        have hlen : i+1 + (counted lib nodes).length ≤ (slots.set i (some s.next)).length := by
          rw [List.length_set]
          omega
        obtain ⟨s',k,hrun,hlog⟩ := ih (i+1) (slots.set i (some s.next)) (stored lib s n) hlen hrest
        rw [fillTable_keep hskip hlt hsome]
        refine ⟨s', k+1, hrun, ?_⟩
        rw [hlog, takings_succ]
        simp [stored]

section loader

variable {conf : Option Node} {f : String}

def acceptedConf (lib : Iksemel Node) (conf : Option Node) : Srvconf Node :=
  let server := lib.find conf "server"
  let access := lib.find server "access"
  let upstream := lib.find server "upstream"
  { self := 0
    pidfile := (lib.findCdata conf "pidfile").getD xnetDefaultPidfile
    conf := conf
    access := {
      port := number (lib.findAttrib access "port") 9097
      max := number (lib.findAttrib access "max") connNumMax
      timeout := number (lib.findAttrib access "timeout") 60 }
    upstream := 1
    slots := (List.range' 2 (peerNodes lib conf).length).map some
    upstreamNum := (peerNodes lib conf).length
    upstreamIndex := 0
    workingNumMax := number (lib.findAttrib upstream "max") connNumMax }

def begun (conf : Option Node) : Arena where
  next := 2
  entries := fun _ => none
  log := (treeOf conf).map .taken ++ [.taken (.block 0), .taken (.block 1)]

theorem new_null : (xServerConfNew lib none).run Arena.empty = .ok none Arena.empty := rfl

theorem new_unloaded (h : lib.load f = (false, conf)) :
    (xServerConfNew lib (some f)).run Arena.empty =
      .ok none { Arena.empty with
        log := (treeOf conf).map .taken ++ (treeOf conf).map .returned } := by
  unfold xServerConfNew
  simp only [EStateM.run_bind, iksLoad_run h]
  unfold errTodo
  simp only [if_true, EStateM.run_bind, iksDelete_run]
  rfl

theorem new_loaded (h : lib.load f = (true, conf)) :
    (xServerConfNew lib (some f)).run Arena.empty = (do
      match ← fillTable lib (lib.children (lib.find (lib.find conf "server") "upstream")) 0
        (List.replicate (peerNodes lib conf).length none) with
      | none => errTodo conf (some 0)
      | some slots => pure (some { acceptedConf lib conf with slots := slots })).run
        (begun conf) := by
  have hcount : countPeers lib (lib.children (lib.find (lib.find conf "server") "upstream")) 0 =
      (peerNodes lib conf).length := by
    rw [countPeers_eq, Nat.zero_add]
    rfl
  have hbegun : acquired { acquired { Arena.empty with
      next := 1, log := Arena.empty.log ++ (treeOf conf).map .taken } (.block 0) with next := 2 }
      (.block 1) = begun conf := by
    simp [acquired, begun, Arena.empty]
  unfold xServerConfNew
  simp only [EStateM.run_bind, iksLoad_run h, Bool.true_eq_false, if_false, zmalloc_run, hcount]
  rw [← hbegun]
  rfl

theorem new_addressed (h : lib.load f = (true, conf)) (ha : Addressed lib (peerNodes lib conf)) :
    (xServerConfNew lib (some f)).run Arena.empty =
      .ok (some (acceptedConf lib conf)) (storedAll lib (begun conf) (peerNodes lib conf)) := by
  have htable : (fillTable lib (lib.children (lib.find (lib.find conf "server") "upstream")) 0
      (List.replicate (peerNodes lib conf).length none)).run (begun conf) =
      .ok (some (acceptedConf lib conf).slots) (storedAll lib (begun conf) (peerNodes lib conf)) :=
    fillTable_run _ [] (begun conf) ha
  rw [new_loaded h, EStateM.run_bind, htable]
  rfl

/-- A peer without an address ends the loading. The tree and the record are
given back, the table and its entries are not. -/
theorem new_unaddressed (h : lib.load f = (true, conf))
    (ha : ¬ Addressed lib (peerNodes lib conf)) :
    ∃ s k, (xServerConfNew lib (some f)).run Arena.empty = .ok none s ∧
      s.log = (begun conf).log ++ takings 2 k ++ (treeOf conf).map .returned ++
        [.returned (.block 0)] := by
  have hlen : 0 + (peerNodes lib conf).length ≤
      (List.replicate (peerNodes lib conf).length (none : Option ℕ)).length := by simp
  obtain ⟨s,k,hrun,hlog⟩ := fillTable_fails _ 0 _ (begun conf) hlen ha
  refine ⟨released { s with log := s.log ++ (treeOf conf).map .returned } (.block 0), k, ?_, ?_⟩
  · rw [new_loaded h, EStateM.run_bind, hrun]
    simp only [errTodo, EStateM.run_bind, iksDelete_run, zfree_run]
    rfl
  · simp only [released, hlog]
    rfl

end loader

/-- Documents, as the library shows them. A text node has its text for a
name. -/
inductive Xml where
  | tag (name : String) (attribs : List (String × String)) (children : List Xml)
  | cdata (text : String)

namespace Xml

def name : Xml → String
  | tag name _ _ => name
  | cdata text => text

def children : Xml → List Xml
  | tag _ _ children => children
  | cdata _ => []

def isTag : Xml → Bool
  | tag .. => true
  | cdata _ => false

def attrib (x : Xml) (key : String) : Option String :=
  match x with
  | tag _ attribs _ => attribs.lookup key
  | cdata _ => none

def find (x : Xml) (key : String) : Option Xml :=
  x.children.find? fun child => child.isTag && child.name = key

def text (x : Xml) : Option String :=
  match x.children with
  | cdata text::_ => some text
  | _ => none

def parsed (doc : Xml) : Iksemel Xml where
  load := fun _ => (true, some doc)
  find := fun x key => x.bind fun x => x.find key
  children := fun x => (x.map children).getD []
  name := name
  findAttrib := fun x key => x.bind fun x => x.attrib key
  findCdata := fun x key => (x.bind fun x => x.find key).bind text

def withPeers (peers : List Xml) : Xml :=
  tag "conf" [] [cdata "\n", tag "server" [] [
    cdata "\n", tag "access" [("port", "9001")] [], cdata "\n", tag "upstream" [] peers]]

end Xml

end TcpFunnel.LoaderRuns
