import Mathlib.Data.List.Nodup
import TcpFunnel.LoaderRuns

/-!
# The memory of a configuration

What the loader obtains is released when the document cannot be parsed, and by
the destructor when a configuration is returned. A peer without an address is
met when the table has been obtained, and the table is then lost together with
its entries.
-/

set_option autoImplicit false

namespace TcpFunnel.LoaderMemory
open TcpFunnel.BufferPool TcpFunnel.Custody TcpFunnel.Configuration TcpFunnel.LoaderRuns

variable {Node : Type}

/-- What has been obtained is released exactly once, by the loader itself when
it returns nothing and by the destructor otherwise. The destructor does not
stop at a slot that has not been written. -/
def Accounted (lib : Iksemel Node) (confFile : Option String) : Prop :=
  match (xServerConfNew lib confFile).run Arena.empty with
  | .ok none s => Balances s.log
  | .ok (some srvconf) s =>
    ∃ s', (xServerConfDestroy (some srvconf)).run s = .ok () s' ∧ Balances s'.log
  | .error .. => False

variable {lib : Iksemel Node} {conf : Option Node} {s : Arena}

theorem freePeers_run (bs : List ℕ) {i : ℕ} {slots : List (Option ℕ)} (s : Arena)
    (h : slots.drop i = bs.map some) : (freePeers slots i bs.length).run s =
      .ok () { s with log := s.log ++ (bs.map .block).map .returned } := by
  induction bs generalizing i s with
  | nil => simp [freePeers]
  | cons b bs ih =>
    have hslot : slots[i]? = some (some b) := by
      have hhead := congrArg List.head? h
      rwa [List.head?_drop] at hhead
    have hrest : slots.drop (i+1) = bs.map some := by
      have htail := congrArg List.tail h
      rwa [List.tail_drop] at htail
    have hread : (slot slots i).run s = .ok b s := by
      unfold slot
      rw [hslot]
      rfl
    have hnext := ih (released s (.block b)) hrest
    rw [List.length_cons]
    unfold freePeers
    simp only [EStateM.run_bind, hread, zfree_run, hnext]
    simp [released]

def resources (conf : Option Node) (bs : List ℕ) : List Resource := treeOf conf ++ bs.map .block

theorem resources_nodup {bs : List ℕ} (h : bs.Nodup) : (resources conf bs).Nodup := by
  have hblocks : (bs.map Resource.block).Nodup := h.map fun a b hab => Resource.block.inj hab
  unfold resources treeOf
  split
  · simpa using hblocks
  · simpa using hblocks

theorem mem_resources {bs bs' : List ℕ} (h : ∀ b, b ∈ bs ↔ b ∈ bs') (a : Resource) :
    a ∈ resources conf bs ↔ a ∈ resources conf bs' := by
  unfold resources
  cases a with
  | tree => simp
  | block b => simp [h]

theorem loaded_log (conf : Option Node) (nodes : List Node) :
    (storedAll lib (begun conf) nodes).log =
      (resources conf (List.range' 0 (nodes.length+2))).map .taken := by
  rw [storedAll_log]
  simp [begun, takings, resources, List.range'_succ]

theorem destroy_run : (xServerConfDestroy (some (acceptedConf lib conf))).run s =
    .ok () { s with log := s.log ++
      (resources conf (List.range' 2 (peerNodes lib conf).length ++ [1, 0])).map .returned } := by
  have hpeers := freePeers_run (List.range' 2 (peerNodes lib conf).length)
    { s with log := s.log ++ (treeOf conf).map .returned }
    (show (acceptedConf lib conf).slots.drop 0 = _ from rfl)
  rw [List.length_range'] at hpeers
  have hnum : (acceptedConf lib conf).upstreamNum = (peerNodes lib conf).length := rfl
  have hconf : (acceptedConf lib conf).conf = conf := rfl
  unfold xServerConfDestroy
  simp only [EStateM.run_bind, hconf, hnum, iksDelete_run, hpeers, zfree_run]
  simp [released, resources, acceptedConf]

theorem addressed_accounted {f : String} (h : lib.load f = (true, conf))
    (ha : Addressed lib (peerNodes lib conf)) : Accounted lib (some f) := by
  unfold Accounted
  rw [new_addressed h ha]
  refine ⟨_, destroy_run, ?_⟩
  simp only [loaded_log]
  have hlast : (List.range' 2 (peerNodes lib conf).length ++ [1, 0]).Nodup := by
    apply List.nodup_append.mpr
    refine ⟨List.nodup_range', by decide, ?_⟩
    intro a ha b hb
    have hge := (List.mem_range'_1.mp ha).1
    have hle : b ≤ 1 := by
      rcases List.mem_pair.mp hb with rfl | rfl
      · exact Nat.le_refl 1
      · exact Nat.zero_le 1
    omega
  apply balances_roundTrip (resources_nodup List.nodup_range') (resources_nodup hlast)
  apply mem_resources
  intro b
  simp only [List.mem_append, List.mem_range'_1, List.mem_pair]
  omega

theorem unaddressed_unaccounted {f : String} (h : lib.load f = (true, conf))
    (ha : ¬ Addressed lib (peerNodes lib conf)) : ¬ Accounted lib (some f) := by
  obtain ⟨s,k,hrun,hlog⟩ := new_unaddressed h ha
  unfold Accounted
  rw [hrun]
  intro hbalances
  have htable : .taken (.block 1) ∈ s.log := by simp [hlog, begun]
  have hreturned := hbalances.returned htable
  rw [hlog] at hreturned
  simp [begun, takings, treeOf] at hreturned

/-- The memory balances exactly when the document is not parsed, or every peer
in it has an address. -/
theorem memory_accounted (lib : Iksemel Node) (confFile : Option String) :
    Accounted lib confFile ↔ ∀ f conf, confFile = some f → lib.load f = (true, conf) →
      ∀ n ∈ peerNodes lib conf, (lib.findAttrib (some n) "ip").isSome := by
  cases confFile with
  | none =>
    have hnull : Accounted lib none := by
      unfold Accounted
      rw [new_null]
      exact proper_nil.balances fun _ => rfl
    simp [hnull]
  | some f =>
    cases hload : lib.load f with
    | mk ok conf =>
      cases ok with
      | false =>
        have hunloaded : Accounted lib (some f) := by
          unfold Accounted
          rw [new_unloaded hload]
          have hnodup : (treeOf conf).Nodup := by
            unfold treeOf
            split <;> simp
          exact balances_roundTrip hnodup hnodup fun _ => Iff.rfl
        constructor
        · intro _ g conf' hg hconf'
          cases hg
          rw [hload] at hconf'
          cases hconf'
        · exact fun _ => hunloaded
      | true =>
        constructor
        · intro haccounted g conf' hg hconf'
          cases hg
          rw [hload] at hconf'
          cases hconf'
          by_contra ha
          exact unaddressed_unaccounted hload ha haccounted
        · intro ha
          exact addressed_accounted hload (ha f conf rfl hload)

theorem table_lost : ¬ Accounted (Xml.parsed (.withPeers
    [.tag "server" [("ip", "127.0.0.1")] [], .tag "server" [("port", "8080")] []]))
    (some "xtp.xml") := by
  apply unaddressed_unaccounted rfl
  unfold Addressed
  decide +kernel

end TcpFunnel.LoaderMemory
