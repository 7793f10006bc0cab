import TcpFunnel.PeerTable
import TcpFunnel.RoundRobin

/-!
# The listener of a loaded configuration

The event loop goes by the record that the loader has left in memory. After any
run the listener's configuration is that record after as many calls for a peer
as have been made, and each of them found the entry that was dialled.
-/

set_option autoImplicit false

namespace TcpFunnel.LoadedListener
open TcpFunnel.BufferPool TcpFunnel.Connection TcpFunnel.EventLoop TcpFunnel.Actions
open TcpFunnel.StageInvariant TcpFunnel.StepSimulation TcpFunnel.Runs TcpFunnel.Reachability
open TcpFunnel.RoundRobin TcpFunnel.Configuration TcpFunnel.LoaderRuns TcpFunnel.PeerTable

variable {Node : Type} {lib : Iksemel Node} {srvcf : Srvconf Node} {s : Arena} {w w' : World}

/-- The record as the listener reads it, with the entries in their order. -/
def listenerConf (srvcf : Srvconf Node) (s : Arena) : XtpSrvconf where
  accessMax := srvcf.access.max
  accessTimeout := srvcf.access.timeout
  upstream := srvcf.slots.filterMap fun a => a.bind s.entries
  upstreamIndex := srvcf.upstreamIndex
  workingNumMax := srvcf.workingNumMax

theorem filled_upstream (hF : Filled srvcf s) :
    (listenerConf srvcf s).upstream.map some = srvcf.slots.map fun a => a.bind s.entries := by
  have hall : ∀ a ∈ srvcf.slots, (a.bind s.entries).isSome := by
    intro a ha
    obtain ⟨i,hi,rfl⟩ := List.getElem_of_mem ha
    obtain ⟨b,e,hslot,he⟩ := hF.slot i (hF.length ▸ hi)
    have hget : srvcf.slots[i] = some b := by
      rw [List.getElem?_eq_getElem hi] at hslot
      exact Option.some.inj hslot
    simp [hget, he]
  unfold listenerConf
  generalize srvcf.slots = slots at hall
  induction slots with
  | nil => rfl
  | cons a slots ih =>
    obtain ⟨e,he⟩ := Option.isSome_iff_exists.mp (hall a (List.mem_cons_self ..))
    have hrest := ih fun c hc => hall c (List.mem_cons_of_mem a hc)
    simp only at hrest
    simp [he, hrest]

/-- The listener goes by the record in memory. -/
structure Follows (srvcf : Srvconf Node) (s : Arena) (w : World) : Prop where
  record : ∃ x, (calls w.choices.length srvcf).run s = .ok { srvcf with upstreamIndex := x } s ∧
    w.ln.srvcf = listenerConf { srvcf with upstreamIndex := x } s
  entry : ∀ k i, w.choices[k]? = some i → ∃ x b srvcf',
    (calls k srvcf).run s = .ok { srvcf with upstreamIndex := x } s ∧
    (xUpstreamChoosePeer { srvcf with upstreamIndex := x }).run s = .ok (b, srvcf') s ∧
    w.ln.srvcf.upstream[i]? = s.entries b ∧ s.entries b ≠ none

structure Turning (srvcf : Srvconf Node) (s : Arena) (w : World) : Prop where
  record : w.ln.srvcf =
    listenerConf { srvcf with upstreamIndex := turned srvcf w.choices.length } s
  choices : ∀ k i, w.choices[k]? = some i → 0 < srvcf.upstreamNum ∧
    i = turned srvcf k % srvcf.upstreamNum

theorem upstream_length (hF : Filled srvcf s) :
    (listenerConf srvcf s).upstream.length = srvcf.upstreamNum := by
  have hmap := congrArg List.length (filled_upstream hF)
  rwa [List.length_map, List.length_map, hF.length] at hmap

theorem view_turning (h : Turning srvcf s w) (hsame : view w' = view w) : Turning srvcf s w' := by
  obtain ⟨hsrvcf,hchoices⟩ := Prod.mk.inj hsame
  constructor
  · rw [hsrvcf, hchoices]
    exact h.record
  · rw [hchoices]
    exact h.choices

theorem choice_turning (hF : Filled srvcf s) (h : Turning srvcf s w) {i : ℕ} (hi : Chosen w i) :
    Turning srvcf s (chosen w i) := by
  have hlen : w.ln.srvcf.upstream.length = srvcf.upstreamNum := by
    rw [h.record]
    exact upstream_length ⟨hF.length, hF.slot⟩
  have hindex : w.ln.srvcf.upstreamIndex = turned srvcf w.choices.length := by
    rw [h.record]
    rfl
  have hturn : i = turned srvcf w.choices.length % srvcf.upstreamNum := by
    rw [← hlen, ← hindex]
    exact hi.2
  have hchoices : (chosen w i).choices = w.choices ++ [i] := rfl
  constructor
  · have hnext : turned srvcf (w.choices.length+1) = i+1 := by
      rw [turned, Function.iterate_succ_apply', hturn]
      rfl
    have hsrvcf : (chosen w i).ln.srvcf = { w.ln.srvcf with upstreamIndex := i+1 } := rfl
    rw [hchoices, List.length_append, List.length_singleton, hnext, hsrvcf, h.record]
    rfl
  · intro k j hj
    rw [hchoices] at hj
    rcases Nat.lt_or_ge k w.choices.length with hlt | hge
    · rw [List.getElem?_append_left hlt] at hj
      exact h.choices k j hj
    · rw [List.getElem?_append_right hge] at hj
      obtain ⟨hk,rfl⟩ : k - w.choices.length = 0 ∧ i = j := by
        cases hsub : k - w.choices.length with
        | zero =>
          rw [hsub] at hj
          exact ⟨rfl, Option.some.inj hj⟩
        | succ m =>
          rw [hsub] at hj
          cases hj
      obtain rfl : k = w.choices.length := by omega
      exact ⟨hlen ▸ Nat.zero_lt_of_lt hi.1, hturn⟩

theorem act_turning {o : Option ConnId} {u v : Stage} (hF : Filled srvcf s) (ha : Act o u v)
    (h : Turning srvcf s u.w) : Turning srvcf s v.w := by
  rcases act_view ha with hsame | ⟨i,hi,hsame⟩
  · exact view_turning h hsame
  · exact view_turning (choice_turning hF h hi) hsame

theorem step_turning (hF : Filled srvcf s) (hr : Reachable proxy w) {t : Turn} (hs : Step w t w')
    (h : Turning srvcf s w) : Turning srvcf s w' := by
  have hI := reaches_inv hr
  obtain ⟨u,hpath,rfl,-⟩ := returned_path hI hs.1 hs.2.1
  exact path_along (fun u => Turning srvcf s u.w) (fun _ _ _ hu ha => act_turning hF ha hu)
    (supply_inv t hI) (view_turning h rfl) hpath

theorem turning_follows (hF : Filled srvcf s) (h : Turning srvcf s w) : Follows srvcf s w where
  record := by
    cases hchoices : w.choices with
    | nil =>
      have hrecord := h.record
      rw [hchoices] at hrecord
      exact ⟨srvcf.upstreamIndex, rfl, hrecord⟩
    | cons i is =>
      obtain ⟨hN,-⟩ := h.choices 0 i (by rw [hchoices]; rfl)
      rw [← hchoices]
      exact ⟨_, calls_turned hF hN _, h.record⟩
  entry := by
    intro k i hi
    obtain ⟨hN,rfl⟩ := h.choices k i hi
    obtain ⟨b,e,hslot,he⟩ := hF.slot _ (Nat.mod_lt (turned srvcf k) hN)
    refine ⟨_, b, _, calls_turned hF hN k, choose_run (Nat.ne_of_gt hN) rfl hslot he, ?_, ?_⟩
    · have hmap := congrArg (fun l => l[turned srvcf k % srvcf.upstreamNum]?) (filled_upstream hF)
      simp only [List.getElem?_map, hslot, Option.map_some, Option.bind_some, he] at hmap
      obtain ⟨e',he',hsome⟩ := Option.map_eq_some_iff.mp hmap
      rw [h.record, he, ← hsome]
      exact he'
    · rw [he]
      exact Option.some_ne_none e

/-- Whatever document has been accepted, the loop can be entered with its record,
and the listener goes by that record for as long as it runs. -/
theorem loaded_runs {confFile : Option String}
    (h : (xServerConfNew lib confFile).run Arena.empty = .ok (some srvcf) s) (got : Bool) :
    Start (listener (listenerConf srvcf s) (initialPool got)) ∧
    ∀ w, Leads proxy (listener (listenerConf srvcf s) (initialPool got)) w →
      Follows srvcf s w := by
  obtain ⟨conf,ha,rfl,rfl⟩ := new_accepts h
  have hF := @accepted_filled _ lib conf ha
  have hstart : Start (listener (listenerConf (acceptedConf lib conf)
      (storedAll lib (begun conf) (peerNodes lib conf))) (initialPool got)) := by
    refine ⟨_, [got], initialPool got, rfl, ?_, ?_, rfl⟩
    · cases got <;> rfl
    · cases got <;> rfl
  refine ⟨hstart, fun w hl => turning_follows hF ?_⟩
  have hfirst : Turning (acceptedConf lib conf)
      (storedAll lib (begun conf) (peerNodes lib conf))
      (listener (listenerConf (acceptedConf lib conf)
        (storedAll lib (begun conf) (peerNodes lib conf))) (initialPool got)) :=
    ⟨rfl, by simp [listener]⟩
  exact Leads.relation (fun w w' => Turning _ _ w → Turning _ _ w') (fun _ h => h)
    (fun _ _ _ _ h1 h2 h => h2 (h1 h)) (fun _ _ _ hr hs => step_turning hF hr hs) hl
    (.start hstart) hfirst

theorem loaded_runs_twoServers : ∃ srvcf s w,
    (xServerConfNew (Xml.parsed twoServers) (some "xtp.xml")).run Arena.empty =
      .ok (some srvcf) s ∧ w.choices = [0, 1] ∧ Follows srvcf s w := by
  have ha : Addressed (Xml.parsed twoServers)
      (peerNodes (Xml.parsed twoServers) (some twoServers)) := by
    unfold Addressed
    decide +kernel
  have hnew := @new_addressed _ _ (some twoServers) "xtp.xml" rfl ha
  have hplay : (play (fun _ _ => true) (listener (listenerConf
      (acceptedConf (Xml.parsed twoServers) (some twoServers))
      (storedAll (Xml.parsed twoServers) (begun (some twoServers))
        (peerNodes (Xml.parsed twoServers) (some twoServers)))) (initialPool true))
      [comes 5, comes 6, asks 0 1 [.inProgress] [], asks 1 2 [.inProgress] [true]]).any
      (fun w => w.choices = [0, 1]) = true := by
    decide +kernel
  obtain ⟨w,hl,hw⟩ := play_leads _ hplay
  exact ⟨_, _, w, hnew, of_decide_eq_true hw, (loaded_runs hnew true).2 w hl⟩

end TcpFunnel.LoadedListener
