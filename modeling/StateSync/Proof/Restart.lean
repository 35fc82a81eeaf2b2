import StateSync.Proof.Clocks
import StateSync.Proof.Watermark

/-!
# A peer that restarts

A node that starts again has lost its store, but its peers keep their watermarks for it. Handling
its introduction registers it under its node id and counts the contact; an entry that exists keeps
its watermark, whatever the peer has forgotten. The peer is sent everything again through an entry
whose watermark is still 0, such as the one its introduction creates when there was none.
-/

namespace StateSync

namespace Cluster

variable {ι : Type}

/-- Every entry of `A` that `B` does not dominate is in the delta `A` builds for one of its entries
for `B`. -/
def Resends (net : Network ι) (A B : ι) (c : Cluster ι) : Prop :=
  ∀ k v, c.get A k = some v → ¬ c.Dominates B k v →
    ∃ p info, (c.nodes A).peers.lookup p = some info ∧ net.resolve info.gossipAddr = some B
      ∧ (k, v) ∈ (c.nodes A).live.deltaSince info.lastSyncTs

/-- A node introduces itself and is sent a write, restarts, and introduces itself again. -/
def forgottenWrite : List (Action Bool) :=
  let seed := ("10.0.0.2:7071", PeerInfo.new "10.0.0.2:7071")
  List.flatten
    [Action.roundAlone false [seed] [] 0 true 0 2,
      Action.setAlone true "k" "x" 5 1,
      Action.roundAlone true [("node-a", ⟨"10.0.0.1:7071", 0, 1⟩)] [("k", ⟨"x", 5, "node-b"⟩)]
        1 false 0 4,
      [.restart false],
      Action.roundAlone false [seed] [] 2 true 2 2]

theorem restart_not_resent :
    (∀ n, ∀ now ∈ readings n forgottenWrite, 0 < now)
      ∧ ∃ c, Machine.run (step twoNodes) (init twoNodes) forgottenWrite = some c
        ∧ (c.exchanges[2]?.map fun ex => (ex.sender, ex.msg.deltas, ex.send))
          = some (false, [], .acked)
        ∧ ¬ Resends twoNodes true false c := by
  refine ⟨by decide, ?_⟩
  have hrun : (Machine.run (step twoNodes) (init twoNodes) forgottenWrite).any (fun c => decide
      ((c.exchanges[2]?.map fun ex => (ex.sender, ex.msg.deltas, ex.send))
          = some (false, [], .acked)
        ∧ c.get true "k" = some ⟨"x", 5, "node-b"⟩
        ∧ ¬ (c.nodes false).live.state.Dominates "k" ⟨"x", 5, "node-b"⟩
        ∧ ∀ entry ∈ (c.nodes true).peers.entries,
          (c.nodes true).live.deltaSince entry.2.lastSyncTs = [])) := by
    decide +kernel
  obtain ⟨c, hrun, hfacts⟩ := Machine.exists_of_any_run hrun
  obtain ⟨hintroduced, hget, hnot, hsilent⟩ := of_decide_eq_true hfacts
  refine ⟨c, hrun, hintroduced, ?_⟩
  intro hresends
  obtain ⟨p, info, hinfo, _, hmem⟩ := hresends "k" _ hget hnot
  simp [hsilent _ (AList.mem_lookup_iff.mp hinfo)] at hmem

variable {net : Network ι} {A B : ι} {c c' : Cluster ι}

theorem peers_register [DecidableEq ι] {x : Nat} {ex : Exchange ι} {i : Nat}
    (hex : c.exchanges[x]? = some ex) (hrecv : ex.recv = .merging A i)
    (hstep : c.step net (.register x) = some c') :
    (c'.nodes A).peers = (c.nodes A).peers.upsert ex.msg.fromNodeId ex.msg.fromGossipAddr
      PeerInfo.markSeen := by
  cases step_spec hstep with
  | store hact hlive => simp [Action.storeAction] at hact
  | round hact hcopies => simp [Action.roundNode] at hact
  | @register _ ex' r task delta updated hex' hrecv' htask =>
      obtain rfl : ex = ex' := Option.some.inj (hex.symm.trans hex')
      obtain ⟨rfl, _⟩ : A = r ∧ i = task := by simpa using hrecv.symm.trans hrecv'
      simp [setNode, setExchange]

/-- The pushes of `A` through `p` to `B` that wait for their acknowledgement hide nothing above `ts`
from `B`. What was handled has reached this run of `B`; and what lies in the range that the
acknowledgement will stand for is in the push, or `B` has it. -/
def PushesCover (net : Network ι) (A B : ι) (p : String) (ts : Nat) (c : Cluster ι) : Prop :=
  ∀ ex ∈ c.exchanges, ex.sender = A → ex.peerId = p → net.resolve ex.peerAddr = some B →
    ex.send = .waiting →
      (ex.Handled → ∀ entry ∈ ex.msg.deltas, c.Dominates B entry.1 entry.2)
        ∧ ∀ entry ∈ (c.nodes A).live.deltaSince ts, entry.2.timestamp ≤ ex.maxSentTs →
            c.Dominates B entry.1 entry.2 ∨ entry ∈ ex.msg.deltas

instance [DecidableEq ι] (net : Network ι) (A B : ι) (p : String) (ts : Nat) (c : Cluster ι) :
    Decidable (PushesCover net A B p ts c) :=
  have (k : String) (v : LwwValue) : Decidable (c.Dominates B k v) :=
    inferInstanceAs (Decidable ((c.nodes B).live.state.Dominates k v))
  inferInstanceAs (Decidable (∀ ex ∈ c.exchanges, ex.sender = A → ex.peerId = p →
    net.resolve ex.peerAddr = some B → ex.send = .waiting →
      (ex.Handled → ∀ entry ∈ ex.msg.deltas, c.Dominates B entry.1 entry.2)
        ∧ ∀ entry ∈ (c.nodes A).live.deltaSince ts, entry.2.timestamp ≤ ex.maxSentTs →
            c.Dominates B entry.1 entry.2 ∨ entry ∈ ex.msg.deltas))

/-- Through entry `p` of node `A`, what lies above `ts` and node `B` lacks is still to be sent. -/
structure Resending (net : Network ι) (A B : ι) (p addr : String) (ts : Nat) (c : Cluster ι) :
    Prop where
  wellFormed : WellFormed net c
  entry : (c.nodes A).peers.Covers p addr 0
  delivered : DeliveredThrough net A B (fun q => q = p) c
  covered : ∀ k v, HoldsAbove A ts c k v → Covered net A B (fun q => q = p) c k v

theorem Resending.step [DecidableEq ι] {p addr : String} {ts : Nat}
    (h : Resending net A B p addr ts c) {a : Action ι} (hstep : c.step net a = some c')
    (hA : a ≠ .restart A) (hB : a ≠ .restart B)
    (htimely : StoresTimely net A B (fun q => q = p) c a) : Resending net A B p addr ts c' where
  wellFormed := h.wellFormed.step hstep
  entry := ((step_spec hstep).node A).covers hA h.entry
  delivered := h.delivered.step h.wellFormed (step_spec hstep) hB
  covered := covered_step h.wellFormed h.delivered h.covered (step_spec hstep) hA hB
    (fun _ _ => HoldsAbove.pos) (holdsAbove_or_timely (step_spec hstep) htimely)

theorem resending_of_pushesCover {p : String} {info : PeerInfo} (hwf : WellFormed net c)
    (hinfo : (c.nodes A).peers.lookup p = some info)
    (hpushes : PushesCover net A B p info.lastSyncTs c) :
    Resending net A B p info.gossipAddr info.lastSyncTs c where
  wellFormed := hwf
  entry := ⟨info, hinfo, rfl, Nat.zero_le _⟩
  delivered := by
    intro x ex hex hsender hp hto hsend hhandled k v hv
    exact (hpushes ex (List.mem_of_getElem? hex) hsender hp hto hsend).1 hhandled (k, v) hv
  covered := by
    rintro k v ⟨hv, hts⟩
    constructor
    · rintro _ info' rfl hinfo' _ hle
      obtain rfl : info = info' := Option.some.inj (hinfo.symm.trans hinfo')
      omega
    · intro x ex hex hsender hp hto hsend hle
      exact (hpushes ex (List.mem_of_getElem? hex) hsender hp hto hsend).2 (k, v)
        (StateSync.mem_deltaSince.mpr ⟨hv, hts⟩) hle

theorem Resending.mem_deltaSince {p addr : String} {ts : Nat}
    (h : Resending net A B p addr ts c) (hresolve : net.resolve addr = some B) {k : String}
    {v : LwwValue} (hv : c.get A k = some v) (hts : ts < v.timestamp)
    (hnot : ¬ c.Dominates B k v) :
    ∃ info, (c.nodes A).peers.lookup p = some info ∧ net.resolve info.gossipAddr = some B
      ∧ (k, v) ∈ (c.nodes A).live.deltaSince info.lastSyncTs := by
  obtain ⟨info, hinfo, haddr, _⟩ := h.entry
  rw [← haddr] at hresolve
  refine ⟨info, hinfo, hresolve, StateSync.mem_deltaSince.mpr ⟨hv, ?_⟩⟩
  by_contra hle
  exact hnot ((h.covered k v ⟨hv, hts⟩).watermark p info rfl hinfo hresolve (not_lt.mp hle))

/-- **What an introduction brings back.** Node `A` handles a message, in any reachable state,
restarts included. Every entry it has keeps its watermark, and a sender that was unknown gets one
that starts from 0. Through an entry for `B` whose pushes under way hide nothing from this run of
`B`, what lies above the watermark it has then is resent, which is everything when it is 0: in every
later state, as long as neither node restarts and `A` stores in time for that entry, what `B` lacks
of it is in the delta `A` builds for the entry. -/
theorem introduction_resends [DecidableEq ι] {as later : List (Action ι)} {x i : Nat}
    {d : Cluster ι} (hclock : ∀ n, ∀ now ∈ readings n (as ++ .register x :: later), 0 < now)
    (hrun : Machine.run (step net) (init net) as = some c) {ex : Exchange ι}
    (hex : c.exchanges[x]? = some ex) (hrecv : ex.recv = .merging A i)
    (hregister : c.step net (.register x) = some c')
    (hlater : Machine.run (step net) c' later = some d) :
    (∀ p info, (c.nodes A).peers.lookup p = some info → ∃ info',
        (c'.nodes A).peers.lookup p = some info' ∧ info'.gossipAddr = info.gossipAddr
          ∧ info'.lastSyncTs = info.lastSyncTs)
      ∧ ((c.nodes A).peers.lookup ex.msg.fromNodeId = none →
          (c'.nodes A).peers.lookup ex.msg.fromNodeId = some ⟨ex.msg.fromGossipAddr, 0, 1⟩)
      ∧ ∀ p info, (c'.nodes A).peers.lookup p = some info →
          net.resolve info.gossipAddr = some B →
          PushesCover net A B p info.lastSyncTs c' →
          Action.restart A ∉ later → Action.restart B ∉ later →
          Machine.Guarded (step net) (StoresTimely net A B fun q => q = p) c' later →
          ∀ k v, d.get A k = some v → ¬ d.Dominates B k v →
            info.lastSyncTs = 0 ∨ info.lastSyncTs < v.timestamp →
            ∃ info', (d.nodes A).peers.lookup p = some info'
              ∧ net.resolve info'.gossipAddr = some B
              ∧ (k, v) ∈ (d.nodes A).live.deltaSince info'.lastSyncTs := by
  have hpeers := peers_register hex hrecv hregister
  refine ⟨?_, ?_, ?_⟩
  · intro p info hinfo
    rw [hpeers]
    by_cases hp : p = ex.msg.fromNodeId
    · subst hp
      refine ⟨info.markSeen, ?_, rfl, rfl⟩
      rw [PeerTable.lookup_upsert_self, hinfo, Option.getD_some]
    · exact ⟨info, by rw [PeerTable.lookup_upsert_of_ne hp, hinfo], rfl, rfl⟩
  · intro hunknown
    rw [hpeers, PeerTable.lookup_upsert_self, hunknown]
    rfl
  · intro p info hinfo hresolve hpushes hA hB htimely k v hv hnot hts
    have hresending : Resending net A B p info.gossipAddr info.lastSyncTs d := by
      refine Machine.run_invariant_of_guarded ?_
        (resending_of_pushesCover ((run_wellFormed hrun).step hregister) hinfo hpushes)
        ((guarded_stable_pair hA hB c').and htimely) hlater
      rintro s a t h ⟨⟨hA, hB⟩, htimely⟩ hstep
      exact h.step hstep hA hB htimely
    have hwhole : Machine.run (step net) (init net) (as ++ .register x :: later) = some d :=
      Machine.run_append_eq_some.mpr ⟨c, hrun, Machine.run_cons_eq_some.mpr ⟨c', hregister, hlater⟩⟩
    have hpos := (run_positive hclock hwhole).stored A k v hv
    exact hresending.mem_deltaSince hresolve hv (by omega) hnot

/-- A push of the write is on its way to the node when it restarts and introduces itself again. -/
def restartUnderWay : List (Action Bool) :=
  let seed := ("10.0.0.2:7071", PeerInfo.new "10.0.0.2:7071")
  List.flatten
    [Action.roundAlone false [seed] [] 0 true 0 2,
      Action.setAlone true "k" "x" 5 1,
      [.beginRound true, .scanPeer true "node-a",
        .startRound true [("node-a", ⟨"10.0.0.1:7071", 0, 1⟩)],
        .sendNext true [("k", ⟨"x", 5, "node-b"⟩)], .restart false, .beginRound false,
        .scanPeer false seed.1, .startRound false [seed], .sendNext false [], .accept 2,
        .advance true 2, .advance true 2]]

def introduction : Exchange Bool where
  sender := false
  peerId := "10.0.0.2:7071"
  peerAddr := "10.0.0.2:7071"
  msg :=
    { fromNodeId := "node-a", fromGossipAddr := "10.0.0.1:7071", deltas := [], generation := 0 }
  maxSentTs := 0
  send := .waiting
  recv := .merging true 2

theorem introduction_resends_underWay :
    ∃ c c' d, Machine.run (step twoNodes) (init twoNodes) restartUnderWay = some c
      ∧ c.step twoNodes (.register 2) = some c'
      ∧ Machine.run (step twoNodes) c' (Action.setAlone true "next" "y" 6 3) = some d
      ∧ (∃ ex ∈ c'.exchanges, ex.sender = true ∧ ex.peerId = "node-a" ∧ ex.send = .waiting)
      ∧ ∃ info, (d.nodes true).peers.lookup "node-a" = some info
        ∧ twoNodes.resolve info.gossipAddr = some false
        ∧ ("k", ⟨"x", 5, "node-b"⟩) ∈ (d.nodes true).live.deltaSince info.lastSyncTs := by
  have hruns : (Machine.run (step twoNodes) (init twoNodes) restartUnderWay).any (fun c =>
      decide (c.exchanges[2]? = some introduction) &&
        (c.step twoNodes (.register 2)).any fun c' =>
          decide ((c'.nodes true).peers.lookup "node-a" = some ⟨"10.0.0.1:7071", 0, 2⟩
            ∧ (∃ ex ∈ c'.exchanges, ex.sender = true ∧ ex.peerId = "node-a" ∧ ex.send = .waiting)
            ∧ PushesCover twoNodes true false "node-a" 0 c'
            ∧ Machine.Guarded (step twoNodes)
              (StoresTimely twoNodes true false fun q => q = "node-a")
              c' (Action.setAlone true "next" "y" 6 3)) &&
            (Machine.run (step twoNodes) c' (Action.setAlone true "next" "y" 6 3)).any fun d =>
              decide (d.get true "k" = some ⟨"x", 5, "node-b"⟩
                ∧ ¬ (d.nodes false).live.state.Dominates "k" ⟨"x", 5, "node-b"⟩)) := by
    decide +kernel
  obtain ⟨c, hc, hrest⟩ := Machine.exists_of_any_run hruns
  obtain ⟨hex, hrest⟩ := (Bool.and_eq_true _ _).mp hrest
  obtain ⟨c', hc', hrest⟩ := (Option.any_eq_true _ _).mp hrest
  obtain ⟨hfacts, hrest⟩ := (Bool.and_eq_true _ _).mp hrest
  obtain ⟨d, hd, hrest⟩ := Machine.exists_of_any_run hrest
  obtain ⟨hinfo, hwaiting, hpushes, htimely⟩ := of_decide_eq_true hfacts
  obtain ⟨hget, hnot⟩ := of_decide_eq_true hrest
  have hresends := (introduction_resends (B := false) (by decide) hc (of_decide_eq_true hex) rfl hc'
    hd).2.2 "node-a" _ hinfo rfl hpushes (by decide) (by decide) htimely
  exact ⟨c, c', d, hc, hc', hd, hwaiting, hresends "k" _ hget hnot (Or.inl rfl)⟩

end Cluster

end StateSync
