import TcpFunnel.LoaderRuns
import TcpFunnel.Library.Cycle

/-!
# Balancing over an accepted configuration

The table of an accepted configuration is filled, and every call for a peer
finds an entry as long as there is one. The loader does not ask for a peer, so
an absent or empty `upstream` section is accepted as well, and then the first
call divides by zero.
-/

set_option autoImplicit false

namespace TcpFunnel.PeerTable
open TcpFunnel.BufferPool TcpFunnel.Connection TcpFunnel.Custody TcpFunnel.Cycle
open TcpFunnel.Configuration TcpFunnel.LoaderRuns

variable {Node : Type} (lib : Iksemel Node)

def calls : ℕ → Srvconf Node → Loader (Srvconf Node)
  | 0, srvcf => pure srvcf
  | k+1, srvcf => do
    let (_, srvcf) ← xUpstreamChoosePeer srvcf
    calls k srvcf

/-- The next call for a peer uses an index in the filled part of the table, and
the entry there was made from a `server` element with an address. -/
structure Chooses (srvcf : Srvconf Node) (s : Arena) : Prop where
  modulus : srvcf.upstreamNum ≠ 0
  entry : ∃ i b n srvcf', i = srvcf.upstreamIndex % srvcf.upstreamNum ∧
    srvcf.slots[i]? = some (some b) ∧ (xUpstreamChoosePeer srvcf).run s = .ok (b, srvcf') s ∧
    (peerNodes lib srvcf.conf)[i]? = some n ∧ s.entries b = peerConf lib n ∧
    (lib.findAttrib (some n) "ip").isSome ∧ lib.name n = "server"

def Safe (srvcf : Srvconf Node) (s : Arena) : Prop :=
  ∀ k, ∃ srvcf', (calls k srvcf).run s = .ok srvcf' s ∧ Chooses lib srvcf' s

structure Filled (srvcf : Srvconf Node) (s : Arena) : Prop where
  length : srvcf.slots.length = srvcf.upstreamNum
  slot : ∀ i < srvcf.upstreamNum, ∃ b e, srvcf.slots[i]? = some (some b) ∧ s.entries b = some e

variable {lib} {srvcf : Srvconf Node} {s : Arena}

theorem choose_run {i b : ℕ} {e : XtpUpstreamConf} (hN : srvcf.upstreamNum ≠ 0)
    (hi : i = srvcf.upstreamIndex % srvcf.upstreamNum) (hslot : srvcf.slots[i]? = some (some b))
    (he : s.entries b = some e) : (xUpstreamChoosePeer srvcf).run s =
      .ok (b, { srvcf with upstreamIndex := i+1 }) s := by
  have hread : (slot srvcf.slots i).run s = .ok b s := by
    unfold slot
    rw [hslot]
    rfl
  unfold xUpstreamChoosePeer
  rw [if_neg hN]
  simp only [EStateM.run_bind, EStateM.run_pure, EStateM.run_get, ← hi, hread, he]

def turned (srvcf : Srvconf Node) (k : ℕ) : ℕ :=
  (fun x => x % srvcf.upstreamNum + 1)^[k] srvcf.upstreamIndex

theorem calls_turned (hF : Filled srvcf s) (hN : 0 < srvcf.upstreamNum) (k : ℕ) :
    (calls k srvcf).run s = .ok { srvcf with upstreamIndex := turned srvcf k } s := by
  induction k generalizing srvcf with
  | zero => rfl
  | succ k ih =>
    obtain ⟨b,e,hslot,he⟩ := hF.slot _ (Nat.mod_lt srvcf.upstreamIndex hN)
    have hF' : Filled { srvcf with
        upstreamIndex := srvcf.upstreamIndex % srvcf.upstreamNum + 1 } s := ⟨hF.length, hF.slot⟩
    unfold calls
    simp only [EStateM.run_bind, choose_run (Nat.ne_of_gt hN) rfl hslot he]
    exact ih hF' hN

section loaded

variable {conf : Option Node}

theorem accepted_slot {i : ℕ} (hi : i < (peerNodes lib conf).length) :
    (acceptedConf lib conf).slots[i]? = some (some (2+i)) := by
  simp [acceptedConf, hi]

theorem accepted_entry {i : ℕ} {n : Node} (hn : (peerNodes lib conf)[i]? = some n) :
    (storedAll lib (begun conf) (peerNodes lib conf)).entries (2+i) = peerConf lib n :=
  storedAll_entry (peerNodes lib conf) (begun conf) hn

theorem accepted_filled (ha : Addressed lib (peerNodes lib conf)) :
    Filled (acceptedConf lib conf) (storedAll lib (begun conf) (peerNodes lib conf)) where
  length := by simp [acceptedConf]
  slot := by
    intro i hi
    have hn : (peerNodes lib conf)[i]? = some (peerNodes lib conf)[i] :=
      List.getElem?_eq_getElem hi
    obtain ⟨e,he⟩ := Option.isSome_iff_exists.mp
      (peerConf_isSome.trans (ha _ (List.getElem_mem hi)))
    exact ⟨2+i, e, accepted_slot hi, (accepted_entry hn).trans he⟩

/-- What the loader accepts has been parsed, and every peer in it has an address. -/
theorem new_accepts {confFile : Option String} (h : (xServerConfNew lib confFile).run Arena.empty =
    .ok (some srvcf) s) : ∃ conf, Addressed lib (peerNodes lib conf) ∧
      srvcf = acceptedConf lib conf ∧ s = storedAll lib (begun conf) (peerNodes lib conf) := by
  cases confFile with
  | none =>
    rw [new_null] at h
    cases h
  | some f =>
    cases hload : lib.load f with
    | mk ok conf =>
      cases ok with
      | false =>
        rw [new_unloaded hload] at h
        cases h
      | true =>
        by_cases ha : Addressed lib (peerNodes lib conf)
        · rw [new_addressed hload ha] at h
          cases h
          exact ⟨conf, ha, rfl, rfl⟩
        · obtain ⟨s',k,hrun,-⟩ := new_unaddressed hload ha
          rw [hrun] at h
          cases h

theorem accepted_calls (ha : Addressed lib (peerNodes lib conf))
    (hne : peerNodes lib conf ≠ []) (k : ℕ) :
    ∃ x, x % (peerNodes lib conf).length = k % (peerNodes lib conf).length ∧
      (calls k (acceptedConf lib conf)).run (storedAll lib (begun conf) (peerNodes lib conf)) =
        .ok { acceptedConf lib conf with upstreamIndex := x }
          (storedAll lib (begun conf) (peerNodes lib conf)) := by
  have hN : 0 < (peerNodes lib conf).length := List.length_pos_iff.mpr hne
  have hat := at_zero.turned hN k
  rw [Nat.zero_add] at hat
  exact ⟨_, hat.mod, calls_turned (accepted_filled ha) hN k⟩

theorem accepted_chooses (ha : Addressed lib (peerNodes lib conf))
    (hne : peerNodes lib conf ≠ []) (hserver : ∀ n ∈ peerNodes lib conf, lib.name n = "server")
    (x : ℕ) : Chooses lib { acceptedConf lib conf with upstreamIndex := x }
      (storedAll lib (begun conf) (peerNodes lib conf)) where
  modulus := Nat.ne_of_gt (List.length_pos_iff.mpr hne)
  entry := by
    have hi := Nat.mod_lt x (List.length_pos_iff.mpr hne)
    have hn : (peerNodes lib conf)[x % (peerNodes lib conf).length]? =
        some (peerNodes lib conf)[x % (peerNodes lib conf).length] := List.getElem?_eq_getElem hi
    have hmem := List.getElem_mem hi
    obtain ⟨e,he⟩ := Option.isSome_iff_exists.mp (peerConf_isSome.trans (ha _ hmem))
    have hentry := accepted_entry hn
    have hN : { acceptedConf lib conf with upstreamIndex := x }.upstreamNum ≠ 0 :=
      Nat.ne_of_gt (List.length_pos_iff.mpr hne)
    have hrun := choose_run hN rfl (accepted_slot hi) (hentry.trans he)
    exact ⟨_, _, _, _, rfl, accepted_slot hi, hrun, hn, hentry, ha _ hmem, hserver _ hmem⟩

theorem safe_named (ha : Addressed lib (peerNodes lib conf))
    (h : Safe lib (acceptedConf lib conf) (storedAll lib (begun conf) (peerNodes lib conf))) :
    peerNodes lib conf ≠ [] ∧ ∀ n ∈ peerNodes lib conf, lib.name n = "server" := by
  have hne : peerNodes lib conf ≠ [] := by
    obtain ⟨srvcf',hrun,hchooses⟩ := h 0
    cases hrun
    intro hnil
    exact hchooses.modulus (by simp [acceptedConf, hnil])
  refine ⟨hne, ?_⟩
  intro n hn
  obtain ⟨k,hk,rfl⟩ := List.getElem_of_mem hn
  obtain ⟨x,hx,hrun⟩ := accepted_calls ha hne k
  obtain ⟨srvcf',hrun',hchooses⟩ := h k
  rw [hrun] at hrun'
  cases hrun'
  obtain ⟨i,b,m,-,hi,-,-,hm,-,-,hname⟩ := hchooses.entry
  have hik : i = k := by
    rw [hi]
    exact hx.trans (Nat.mod_eq_of_lt hk)
  rw [hik] at hm
  have hget : (peerNodes lib conf)[k]? = some m := hm
  rw [List.getElem?_eq_getElem hk] at hget
  cases hget
  exact hname

end loaded

/-- An accepted configuration can be balanced over exactly when it has a peer
and all of its peers are `server` elements. -/
theorem accepted_safe (lib : Iksemel Node) {confFile : Option String} {srvcf : Srvconf Node}
    {s : Arena} (h : (xServerConfNew lib confFile).run Arena.empty = .ok (some srvcf) s) :
    Safe lib srvcf s ↔
      peerNodes lib srvcf.conf ≠ [] ∧ ∀ n ∈ peerNodes lib srvcf.conf, lib.name n = "server" := by
  obtain ⟨conf,ha,rfl,rfl⟩ := new_accepts h
  constructor
  · exact safe_named ha
  · intro ⟨hne,hserver⟩ k
    obtain ⟨x,-,hrun⟩ := accepted_calls ha hne k
    exact ⟨_, hrun, accepted_chooses ha hne hserver x⟩

def twoServers : Xml := .withPeers [
  .cdata "\n  ", .tag "server" [("ip", "127.0.0.1"), ("port", "8081")] [],
  .cdata "\n  ", .tag "server" [("ip", "127.0.0.2")] [], .cdata "\n"]

theorem accepted_safe_twoServers : ∃ srvcf s,
    (xServerConfNew (Xml.parsed twoServers) (some "xtp.xml")).run Arena.empty =
      .ok (some srvcf) s ∧ Safe (Xml.parsed twoServers) srvcf s := by
  have ha : Addressed (Xml.parsed twoServers)
      (peerNodes (Xml.parsed twoServers) (some twoServers)) := by
    unfold Addressed
    decide +kernel
  have hnew := @new_addressed _ _ (some twoServers) "xtp.xml" rfl ha
  have hne : peerNodes (Xml.parsed twoServers) (some twoServers) ≠ [] := by
    decide +kernel
  exact ⟨_, _, hnew, (accepted_safe _ hnew).mpr ⟨hne, by decide +kernel⟩⟩

/-- An empty `upstream` section is accepted, and no peer can be chosen. -/
theorem empty_unsafe : ∃ srvcf s,
    (xServerConfNew (Xml.parsed (.withPeers [])) (some "xtp.xml")).run Arena.empty =
      .ok (some srvcf) s ∧ ¬ Safe (Xml.parsed (.withPeers [])) srvcf s := by
  have ha : Addressed (Xml.parsed (.withPeers []))
      (peerNodes (Xml.parsed (.withPeers [])) (some (.withPeers []))) := by
    unfold Addressed
    decide +kernel
  have hnew := @new_addressed _ _ (some (Xml.withPeers [])) "xtp.xml" rfl ha
  exact ⟨_, _, hnew, fun h => (safe_named ha h).1 rfl⟩

end TcpFunnel.PeerTable
