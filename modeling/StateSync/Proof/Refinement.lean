import StateSync.Proof.ClusterInvariant
import StateSync.Proof.Origin

/-!
# The cluster refines the replicas

Forget the rounds, the peer tables and the progress of each exchange, and keep the stores and the
entries of all messages. What is left of a step of the cluster is a step of `Replicas`, or nothing:
`gossip_round` only sends what the store holds, and `handle_inbound` only merges what was sent.
-/

namespace StateSync

namespace Cluster

variable {ι : Type} {net : Network ι} {c c' : Cluster ι}

def replicas (c : Cluster ι) : Replicas ι where
  nodes := fun n => (c.nodes n).live
  gossiped := c.exchanges.flatMap fun ex => ex.msg.deltas

theorem replicas_init (net : Network ι) : (init net).replicas = Replicas.init net.ids := rfl

theorem replicas_setExchange {x : Nat} {ex : Exchange ι} (ex' : Exchange ι)
    (hex : c.exchanges[x]? = some ex) (hmsg : ex'.msg = ex.msg) :
    (c.setExchange x ex').replicas = c.replicas := by
  have hgossiped : (c.exchanges.set x ex').flatMap (fun ex => ex.msg.deltas)
      = c.exchanges.flatMap fun ex => ex.msg.deltas :=
    Slots.flatMap_set hex (congrArg GossipMessage.deltas hmsg)
  exact congrArg (Replicas.mk fun n => (c.nodes n).live) hgossiped

variable [DecidableEq ι]

theorem replicas_setNode (n : ι) (node : Node) :
    (c.setNode n node).replicas
      = { c.replicas with nodes := Function.update c.replicas.nodes n node.live } :=
  congrArg (Replicas.mk · c.replicas.gossiped) (Function.comp_update Node.live c.nodes n node)

theorem replicas_setNode_of_live_eq {n : ι} (node : Node) (hlive : node.live = (c.nodes n).live) :
    (c.setNode n node).replicas = c.replicas := by
  rw [replicas_setNode, hlive]
  exact congrArg (Replicas.mk · c.replicas.gossiped) (Function.update_eq_self n _)

theorem step_replicas_store {n : ι} {sa : StoreAction} {live : LiveStore}
    (hsa : sa.Gossiped c.replicas.gossiped) (hlive : (c.nodes n).live.step sa = some live) :
    c.replicas.step (.store n sa)
      = some (c.setNode n { c.nodes n with live := live }).replicas := by
  have hlive : (c.replicas.nodes n).step sa = some live := hlive
  rw [replicas_setNode, Replicas.step, if_pos hsa, hlive]
  rfl

/-- **A step of the cluster is one of the replicas, or none.** -/
theorem Steps.replicas {a : Action ι} (h : Steps net c a c') (ha : ∀ n, a ≠ .restart n) :
    c'.replicas = c.replicas ∨ ∃ b, c.replicas.step b = some c'.replicas
      ∧ ∀ n i, b = .store n (.advance i) → a = .advance n i := by
  cases h with
  | @store _ n sa live hact hlive =>
      cases a with
      | callSet m key value now =>
          obtain ⟨rfl, rfl⟩ : m = n ∧ .callSet key value now = sa := by
            simpa [Action.storeAction] using hact
          exact Or.inr ⟨.store m _, step_replicas_store (by trivial) hlive, by simp⟩
      | advance m i =>
          obtain ⟨rfl, rfl⟩ : m = n ∧ .advance i = sa := by
            simpa [Action.storeAction] using hact
          exact Or.inr ⟨.store m _, step_replicas_store (by trivial) hlive, by simp⟩
      | _ => simp [Action.storeAction] at hact
  | round hact hcopies => exact Or.inl (replicas_setNode_of_live_eq _ rfl)
  | @send n peerId info pc delta msg hcopy hcopies hdelta hfrom haddr hmsg =>
      refine Or.inr ⟨.gossip n delta, ?_, by simp⟩
      have hheld : ∀ entry ∈ delta, (c.replicas.nodes n).get entry.1 = some entry.2 := by
        intro entry hentry
        exact (mem_deltaSince.mp (hdelta.mem_iff.mp hentry)).1
      have hnodes := congrArg Replicas.nodes
        (replicas_setNode_of_live_eq (c := c) (n := n) { c.nodes n with round := pc } rfl)
      rw [Replicas.step, if_pos hheld, Option.some.injEq]
      apply congrArg₂ Replicas.mk hnodes.symm
      simp [Cluster.replicas, hmsg]
  | @accept x ex r live hex hr hrecv hlive =>
      have hsub : (StoreAction.callMerge ex.msg.deltas).Gossiped c.replicas.gossiped := by
        intro entry hentry
        exact List.mem_flatMap.mpr ⟨ex, List.mem_of_getElem? hex, hentry⟩
      refine Or.inr ⟨.store r (.callMerge ex.msg.deltas), ?_, by simp⟩
      refine (step_replicas_store hsub hlive).trans (congrArg some (Eq.symm ?_))
      exact replicas_setExchange (c := c.setNode r _) _ hex rfl
  | @register x ex r task delta updated hex hrecv htask =>
      apply Or.inl
      apply (replicas_setExchange (c := c.setNode r _) _ hex ?_).trans
      · exact replicas_setNode_of_live_eq _ rfl
      · rfl
  | @recvAck x ex ack hex hsend hrecv =>
      apply Or.inl
      apply (replicas_setExchange (c := c.setNode ex.sender _) _ hex ?_).trans
      · exact replicas_setNode_of_live_eq _ rfl
      · rfl
  | writeAck hex hrecv => exact Or.inl (replicas_setExchange _ hex rfl)
  | failSend hex hsend => exact Or.inl (replicas_setExchange _ hex rfl)
  | lose hex => exact Or.inl (replicas_setExchange _ hex rfl)
  | @restart n => exact absurd rfl (ha n)

/-- **Every run of the cluster without restarts is a run of the replicas.** -/
theorem run_replicas {as : List (Action ι)} (hstable : ∀ n, Action.restart n ∉ as)
    (hrun : Machine.run (step net) (init net) as = some c) :
    ∃ bs, Machine.run Replicas.step (Replicas.init net.ids) bs = some c.replicas := by
  rw [← replicas_init]
  refine Machine.run_simulates (P := fun a => ∀ n, a ≠ .restart n) ?_ ?_ hrun
  · intro s a t ha hstep
    exact ((step_spec hstep).replicas ha).imp id fun ⟨b, hb, _⟩ => ⟨b, hb⟩
  · intro a ha n hn
    exact hstable n (hn ▸ ha)

theorem run_replicas_wellFormed (hids : Function.Injective net.ids) {as : List (Action ι)}
    (hstable : ∀ n, Action.restart n ∉ as)
    (hrun : Machine.run (step net) (init net) as = some c) :
    Replicas.WellFormed net.ids c.replicas := by
  obtain ⟨bs, hbs⟩ := run_replicas hstable hrun
  exact Replicas.run_wellFormed hids hbs

end Cluster

end StateSync
