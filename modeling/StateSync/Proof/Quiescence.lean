import StateSync.Proof.Clocks
import StateSync.Proof.Convergence
import StateSync.Proof.Watermark
import Mathlib.Logic.Relation
import Mathlib.Data.Fintype.Basic

/-!
# Quiescent clusters

When no round would send anything any more, every watermark a node keeps says that the peer is
served. If that is true for every entry a node holds, then along the links of the peer tables the
stamps of a key can only grow, and in a cluster where every node reaches every other they are all
equal. It is true as long as entries are stored in time. A relay stores them out of time order: it
receives an older entry after it has pushed a newer one, and then nobody ever sends the older one
on.
-/

namespace StateSync

open Register

namespace Cluster

variable {ι : Type}

/-- No message, acknowledgement or `set` is in progress, and the next round of any node would send
nothing. -/
structure Quiescent (c : Cluster ι) : Prop where
  idle : ∀ n, (c.nodes n).live.Idle
  exchanges : ∀ ex ∈ c.exchanges, ex.send ≠ .waiting ∧ ex.recv = .closed
  rounds : ∀ n, ∀ entry ∈ (c.nodes n).peers.entries,
    (c.nodes n).live.deltaSince entry.2.lastSyncTs = [] ∧ 0 < entry.2.exchangeCount

def Linked (net : Network ι) (c : Cluster ι) (m n : ι) : Prop :=
  ∃ entry ∈ (c.nodes m).peers.entries, net.resolve entry.2.gossipAddr = some n

instance [DecidableEq ι] [Fintype ι] (c : Cluster ι) : Decidable c.Quiescent :=
  decidable_of_iff ((∀ n, (c.nodes n).live.Idle)
      ∧ (∀ ex ∈ c.exchanges, ex.send ≠ .waiting ∧ ex.recv = .closed)
      ∧ ∀ n, ∀ entry ∈ (c.nodes n).peers.entries,
        (c.nodes n).live.deltaSince entry.2.lastSyncTs = [] ∧ 0 < entry.2.exchangeCount)
    ⟨fun h => ⟨h.1, h.2.1, h.2.2⟩, fun h => ⟨h.idle, h.exchanges, h.rounds⟩⟩

instance [DecidableEq ι] (net : Network ι) (c : Cluster ι) (m n : ι) :
    Decidable (Linked net c m n) :=
  inferInstanceAs (Decidable (∃ entry ∈ (c.nodes m).peers.entries,
    net.resolve entry.2.gossipAddr = some n))

/-! ### A relay that withholds an entry -/

/-- Node 1 is the seed of nodes 0 and 2, which do not know each other. -/
def relay : Network (Fin 3) where
  config := fun
    | 0 => { nodeId := "node-a", host := "10.0.0.1", gossipPort := 7071,
             seedPeers := ["10.0.0.2:7071"], gossipFanout := 1 }
    | 1 => { nodeId := "node-b", host := "10.0.0.2", gossipPort := 7071, seedPeers := [],
             gossipFanout := 1 }
    | 2 => { nodeId := "node-c", host := "10.0.0.3", gossipPort := 7071,
             seedPeers := ["10.0.0.2:7071"], gossipFanout := 1 }
  resolve := fun addr =>
    if addr = "10.0.0.1:7071" then some 0
    else if addr = "10.0.0.2:7071" then some 1
    else if addr = "10.0.0.3:7071" then some 2
    else none

/-- The relay writes `y` and pushes it to node 2, then receives from node 0 an `x` that was written
earlier. Every entry of every peer table is then used until nothing is left to send. -/
def relayedLate : List (Action (Fin 3)) :=
  let x : String × LwwValue := ("x", ⟨"old", 10, "node-a"⟩)
  let y : String × LwwValue := ("y", ⟨"new", 20, "node-b"⟩)
  let seed (ts count : Nat) : String × PeerInfo := ("10.0.0.2:7071", ⟨"10.0.0.2:7071", ts, count⟩)
  let nodeA (ts count : Nat) : String × PeerInfo := ("node-a", ⟨"10.0.0.1:7071", ts, count⟩)
  let nodeB (ts count : Nat) : String × PeerInfo := ("node-b", ⟨"10.0.0.2:7071", ts, count⟩)
  let nodeC (ts count : Nat) : String × PeerInfo := ("node-c", ⟨"10.0.0.3:7071", ts, count⟩)
  List.flatten
    [Action.roundAlone 2 [seed 0 0] [] 0 1 0 2,
      Action.setAlone 1 "y" "new" 20 1,
      Action.roundAlone 1 [nodeC 0 1] [y] 1 2 0 4,
      Action.setAlone 0 "x" "old" 10 0,
      Action.roundAlone 0 [seed 0 0] [x] 2 1 2 4,
      Action.roundAlone 1 [nodeA 0 1, nodeC 20 2] [x, y] 3 0 1 4,
      Action.roundAlone 0 [seed 10 1, nodeB 0 1] [y] 4 1 3 2,
      Action.roundAlone 2 [seed 0 1, nodeB 0 1] [y] 5 1 4 2,
      Action.roundAlone 0 [nodeB 0 1, seed 20 2] [y, x] 6 1 5 2,
      Action.roundAlone 2 [nodeB 0 1, seed 20 2] [y] 7 1 6 2]

theorem relay_withholds :
    Function.Injective relay.ids ∧ (∀ n, Action.restart n ∉ relayedLate)
      ∧ (∀ n, ∀ now ∈ readings n relayedLate, 0 < now)
      ∧ ∃ c, Machine.run (step relay) (init relay) relayedLate = some c ∧ c.Quiescent
        ∧ (∀ m n, Relation.ReflTransGen (Linked relay c) m n) ∧ c.get 1 "x" ≠ c.get 2 "x" := by
  refine ⟨by decide, by decide, by decide, ?_⟩
  have hrun : (Machine.run (step relay) (init relay) relayedLate).any (fun c => decide (c.Quiescent
      ∧ (∀ n, n ≠ 1 → Linked relay c n 1 ∧ Linked relay c 1 n) ∧ c.get 1 "x" ≠ c.get 2 "x")) := by
    decide +kernel
  obtain ⟨c, hrun, hfacts⟩ := Machine.exists_of_any_run hrun
  obtain ⟨hquiet, hlinked, hne⟩ := of_decide_eq_true hfacts
  refine ⟨c, hrun, hquiet, ?_, hne⟩
  have hto : ∀ m, Relation.ReflTransGen (Linked relay c) m 1 := by
    intro m
    by_cases hm : m = 1
    · rw [hm]
    · exact Relation.ReflTransGen.single (hlinked m hm).1
  intro m n
  by_cases hn : n = 1
  · rw [hn]
    exact hto m
  · exact (hto m).tail (hlinked n hn).2

/-! ### Runs that store in time -/

variable {net : Network ι} {c c' : Cluster ι}

structure AllSafe (net : Network ι) (c : Cluster ι) : Prop where
  wellFormed : WellFormed net c
  safe : ∀ m n, Safe net m n (fun _ => True) 0 (HoldsAbove m 0) c

theorem allSafe_init (net : Network ι) : AllSafe net (init net) where
  wellFormed := wellFormed_init net
  safe := fun _ _ => safe_init (by
    simp [HoldsAbove, init, get, Node.new, LiveStore.new, StateStore.new, StateStore.get])

theorem AllSafe.step [DecidableEq ι] (h : AllSafe net c) {a : Action ι}
    (hstep : c.step net a = some c') (ha : ∀ n, a ≠ .restart n)
    (htimely : ∀ m n, StoresTimely net m n (fun _ => True) c a) : AllSafe net c' := by
  refine ⟨h.wellFormed.step hstep, ?_⟩
  intro m n
  exact (h.safe m n).step_holdsAbove h.wellFormed (step_spec hstep) (ha m) (ha n) (htimely m n)

theorem AllSafe.stampAt_le_of_linked (h : AllSafe net c) (hpositive : Positive c)
    (hquiet : c.Quiescent) {m n : ι} (hlink : Linked net c m n) (k : String) :
    (c.nodes m).live.state.stampAt k ≤ (c.nodes n).live.state.stampAt k := by
  obtain ⟨⟨p, info⟩, hentry, hresolve⟩ := hlink
  rw [StateStore.stampAt_eq, ← get]
  cases hv : c.get m k with
  | none => exact bot_le
  | some v =>
      have hsilent := (hquiet.rounds m _ hentry).1
      have hle : v.timestamp ≤ info.lastSyncTs := by
        by_contra hlt
        have hmem := mem_deltaSince.mpr ⟨hv, not_le.mp hlt⟩
        simp [hsilent] at hmem
      exact ((h.safe m n).covered k v ⟨hv, hpositive.stored m k v hv⟩).watermark p info trivial
        (AList.mem_lookup_iff.mpr hentry) hresolve hle

theorem AllSafe.stampAt_le_of_reachable (h : AllSafe net c) (hpositive : Positive c)
    (hquiet : c.Quiescent) {m n : ι} (hreach : Relation.ReflTransGen (Linked net c) m n)
    (k : String) :
    (c.nodes m).live.state.stampAt k ≤ (c.nodes n).live.state.stampAt k := by
  induction hreach with
  | refl => exact le_rfl
  | @tail l n _ hlink ih =>
      calc
        (c.nodes m).live.state.stampAt k ≤ (c.nodes l).live.state.stampAt k := ih
        _ ≤ (c.nodes n).live.state.stampAt k :=
          h.stampAt_le_of_linked hpositive hquiet hlink k

/-- **Quiescent convergence.** In every run in which each entry is stored in time, a quiescent state
where every node reaches every other has one map on all nodes. -/
theorem get_eq_of_quiescent [DecidableEq ι] (hids : Function.Injective net.ids)
    {as : List (Action ι)} (hstable : ∀ n, Action.restart n ∉ as)
    (hclock : ∀ n, ∀ now ∈ readings n as, 0 < now)
    (htimely : Machine.Guarded (step net)
      (fun c a => ∀ m n, StoresTimely net m n (fun _ => True) c a) (init net) as)
    (hrun : Machine.run (step net) (init net) as = some c) (hquiet : c.Quiescent)
    (hreach : ∀ m n, Relation.ReflTransGen (Linked net c) m n) (m n : ι) (k : String) :
    c.get m k = c.get n k := by
  have hsafe : AllSafe net c := by
    refine Machine.run_invariant_of_guarded ?_ (allSafe_init net)
      ((guarded_stable hstable _).and htimely) hrun
    rintro s a t h ⟨ha, htimely⟩ hstep
    exact h.step hstep ha htimely
  have hpositive := run_positive hclock hrun
  have hwf := run_replicas_wellFormed hids hstable hrun
  apply hwf.get_eq_of_stampAt_eq
  apply le_antisymm
  · exact hsafe.stampAt_le_of_reachable hpositive hquiet (hreach m n) k
  · exact hsafe.stampAt_le_of_reachable hpositive hquiet (hreach n m) k

def settledWrite : List (Action Bool) :=
  let k : String × LwwValue := ("k", ⟨"x", 5, "node-a"⟩)
  List.flatten
    [ackedWrite,
      Action.roundAlone true [("node-a", ⟨"10.0.0.1:7071", 0, 1⟩)] [k] 1 false 1 2,
      Action.roundAlone false
        [("node-b", ⟨"10.0.0.2:7071", 0, 1⟩), ("10.0.0.2:7071", ⟨"10.0.0.2:7071", 5, 1⟩)] [k]
        2 true 1 2]

theorem get_eq_of_quiescent_settled :
    ∃ c, Machine.run (step twoNodes) (init twoNodes) settledWrite = some c ∧ c.Quiescent
      ∧ c.get true "k" = c.get false "k" := by
  have hrun : (Machine.run (step twoNodes) (init twoNodes) settledWrite).any (fun c =>
      decide (c.Quiescent ∧ Linked twoNodes c false true ∧ Linked twoNodes c true false)) := by
    decide +kernel
  obtain ⟨c, hrun, hfacts⟩ := Machine.exists_of_any_run hrun
  obtain ⟨hquiet, hlinked, hlinked'⟩ := of_decide_eq_true hfacts
  refine ⟨c, hrun, hquiet, ?_⟩
  apply get_eq_of_quiescent twoNodes_ids_injective (by decide) (by decide) (by decide +kernel) hrun
    hquiet
  intro m n
  cases m <;> cases n
  · exact Relation.ReflTransGen.refl
  · exact Relation.ReflTransGen.single hlinked
  · exact Relation.ReflTransGen.single hlinked'
  · exact Relation.ReflTransGen.refl

end Cluster

end StateSync
