import StateSync.Proof.StoreInvariant
import StateSync.Gossip.Cluster

/-!
# What a step of the cluster does

`Steps` lists the steps of the cluster by what they change: one store, the running round of one
node, the exchanges, or one peer table. The views after it say the same for one node's table and for
one exchange; the invariants of the gossip protocol are proved from these and do not look at `step`
again.
-/

namespace StateSync

open Register

def Action.storeAction {ι : Type} : Action ι → Option (ι × StoreAction)
  | .callSet n key value now => some (n, .callSet key value now)
  | .advance n i => some (n, .advance i)
  | _ => none

def Action.roundNode {ι : Type} : Action ι → Option ι
  | .beginRound n | .scanPeer n _ | .startRound n _ | .sendNext n _ => some n
  | _ => none

theorem Action.eq_advance {ι : Type} {a : Action ι} {n : ι} {i : Nat}
    (h : a.storeAction = some (n, .advance i)) : a = .advance n i := by
  cases a <;> simp_all [storeAction]

namespace Cluster

variable {ι : Type} [DecidableEq ι]

inductive Steps (net : Network ι) (c : Cluster ι) : Action ι → Cluster ι → Prop
  | store {a : Action ι} {n : ι} {sa : StoreAction} {live : LiveStore}
      (hact : a.storeAction = some (n, sa)) (hlive : (c.nodes n).live.step sa = some live) :
      Steps net c a (c.setNode n { c.nodes n with live := live })
  | round {a : Action ι} {n : ι} {gen : Nat} {pc : RoundPc}
      (hact : a.roundNode = some n)
      (hcopies : ∀ entry ∈ pc.copies, entry ∈ (c.nodes n).round.copies
        ∨ (c.nodes n).peers.lookup entry.1 = some entry.2) :
      Steps net c a (c.setNode n { c.nodes n with generation := gen, round := pc })
  | send {n : ι} {peerId : String} {info : PeerInfo} {pc : RoundPc} {delta : StateDelta}
      {msg : GossipMessage}
      (hcopy : (peerId, info) ∈ (c.nodes n).round.copies)
      (hcopies : pc.copies ⊆ (c.nodes n).round.copies)
      (hdelta : delta.Perm ((c.nodes n).live.deltaSince info.lastSyncTs))
      (hfrom : msg.fromNodeId = (c.nodes n).live.nodeId)
      (haddr : msg.fromGossipAddr = (net.config n).gossipAddr)
      (hmsg : msg.deltas = delta) :
      Steps net c (.sendNext n delta)
        { nodes := Function.update c.nodes n { c.nodes n with round := pc }
          exchanges := c.exchanges ++ [
            { sender := n, peerId := peerId, peerAddr := info.gossipAddr, msg := msg,
              maxSentTs := maxSentTs delta, send := .waiting, recv := .inFlight }] }
  | accept {x : Nat} {ex : Exchange ι} {r : ι} {live : LiveStore}
      (hex : c.exchanges[x]? = some ex) (hr : net.resolve ex.peerAddr = some r)
      (hrecv : ex.recv = .inFlight)
      (hlive : (c.nodes r).live.step (.callMerge ex.msg.deltas) = some live) :
      Steps net c (.accept x) ((c.setNode r { c.nodes r with live := live }).setExchange x
        { ex with recv := .merging r (c.nodes r).live.tasks.length })
  | register {x : Nat} {ex : Exchange ι} {r : ι} {task : Nat} {delta : StateDelta}
      {updated : List String}
      (hex : c.exchanges[x]? = some ex) (hrecv : ex.recv = .merging r task)
      (htask : (c.nodes r).live.tasks[task]? = some (.merge delta (.returned updated))) :
      Steps net c (.register x) ((c.setNode r { c.nodes r with
          peers := (c.nodes r).peers.upsert ex.msg.fromNodeId ex.msg.fromGossipAddr
            PeerInfo.markSeen }).setExchange x { ex with recv := .registered r updated.length })
  | recvAck {x : Nat} {ex : Exchange ι} {ack : GossipAck}
      (hex : c.exchanges[x]? = some ex) (hsend : ex.send = .waiting)
      (hrecv : ex.recv = .acked ack) :
      Steps net c (.recvAck x) ((c.setNode ex.sender { c.nodes ex.sender with
          peers := (c.nodes ex.sender).peers.upsert ex.peerId ex.peerAddr
            (PeerInfo.recordExchange ex.maxSentTs) }).setExchange x
        { ex with send := .acked, recv := .closed })
  | writeAck {x : Nat} {ex : Exchange ι} {r : ι} {merged : Nat} {ack : GossipAck}
      (hex : c.exchanges[x]? = some ex) (hrecv : ex.recv = .registered r merged) :
      Steps net c (.writeAck x) (c.setExchange x { ex with recv := .acked ack })
  | failSend {x : Nat} {ex : Exchange ι}
      (hex : c.exchanges[x]? = some ex) (hsend : ex.send = .waiting) :
      Steps net c (.failSend x) (c.setExchange x { ex with send := .failed })
  | lose {x : Nat} {ex : Exchange ι} (hex : c.exchanges[x]? = some ex) :
      Steps net c (.lose x) (c.setExchange x { ex with recv := .closed })
  | restart {n : ι} :
      Steps net c (.restart n)
        { nodes := Function.update c.nodes n (Node.new (net.config n))
          exchanges := c.exchanges.map (Exchange.afterRestart n) }

variable {net : Network ι} {c c' : Cluster ι}

theorem steps_of_storeStep {a : Action ι} {n : ι} {sa : StoreAction}
    (hact : a.storeAction = some (n, sa)) (hstep : c.storeStep n sa = some c') :
    Steps net c a c' := by
  obtain ⟨live, hlive, rfl⟩ := Option.map_eq_some_iff.mp hstep
  exact Steps.store hact hlive

/-! ### The steps of a round -/

theorem step_beginRound {n : ι} (hstep : c.step net (.beginRound n) = some c') :
    ∃ due, c' = c.setNode n { c.nodes n with round := .scanning due [] } := by
  simp only [step] at hstep
  split at hstep
  · exact ⟨_, (Option.some.inj hstep).symm⟩
  · simp at hstep

theorem step_scanPeer {n : ι} {peerId : String}
    (hstep : c.step net (.scanPeer n peerId) = some c') :
    ∃ info due yielded, (c.nodes n).peers.lookup peerId = some info
      ∧ (c.nodes n).round = .scanning due yielded ∧ peerId ∉ yielded.map Prod.fst
      ∧ c' = c.setNode n { c.nodes n with
          round := .scanning due (yielded ++ [(peerId, info)]) } := by
  simp only [step, Option.bind_eq_bind, Option.bind_eq_some_iff] at hstep
  obtain ⟨info, hinfo, hstep⟩ := hstep
  split at hstep
  · rename_i due yielded hround
    split at hstep
    · simp at hstep
    · rename_i hnew
      exact ⟨info, due, yielded, hinfo, hround, hnew, (Option.some.inj hstep).symm⟩
  · simp at hstep

theorem step_startRound {n : ι} {shuffled : List (String × PeerInfo)}
    (hstep : c.step net (.startRound n shuffled) = some c') :
    ∃ due yielded gen pc, (c.nodes n).round = .scanning due yielded ∧ shuffled.Perm yielded
      ∧ pc.copies.Sublist shuffled
      ∧ c' = c.setNode n { c.nodes n with generation := gen, round := pc } := by
  simp only [step] at hstep
  split at hstep
  · rename_i due yielded hround
    split at hstep
    · rename_i hperm
      split at hstep
      · exact ⟨due, yielded, (c.nodes n).generation, .idle, hround, hperm.2, List.nil_sublist _,
          (Option.some.inj hstep).symm⟩
      · exact ⟨due, yielded, _, .sending _ (gossipTargets (net.config n).gossipFanout shuffled),
          hround, hperm.2, List.take_sublist _ _, (Option.some.inj hstep).symm⟩
    · simp at hstep
  · simp at hstep

/-- One iteration of the loop of `gossip_round`: the first target is done with, whether or not
something is sent to it. -/
theorem step_sendNext {n : ι} {delta : StateDelta}
    (hstep : c.step net (.sendNext n delta) = some c') :
    ∃ peerId info pc, (c.nodes n).round.copies = (peerId, info) :: pc.copies
      ∧ delta.Perm ((c.nodes n).live.deltaSince info.lastSyncTs)
      ∧ (c' = c.setNode n { c.nodes n with round := pc }
        ∨ ∃ msg, (delta = [] → info.exchangeCount = 0)
          ∧ msg.fromNodeId = (c.nodes n).live.nodeId
          ∧ msg.fromGossipAddr = (net.config n).gossipAddr ∧ msg.deltas = delta
          ∧ c' =
            { nodes := Function.update c.nodes n { c.nodes n with round := pc }
              exchanges := c.exchanges ++ [
                { sender := n, peerId := peerId, peerAddr := info.gossipAddr, msg := msg,
                  maxSentTs := maxSentTs delta, send := .waiting, recv := .inFlight }] }) := by
  simp only [step] at hstep
  split at hstep
  · rename_i gen peerId info rest hround
    have hcopies : (c.nodes n).round.copies
        = (peerId, info) :: (if rest = [] then RoundPc.idle else .sending gen rest).copies := by
      rw [hround]
      split
      · rename_i hrest
        rw [hrest]
        rfl
      · rfl
    split at hstep
    · rename_i hdelta
      refine ⟨peerId, info, _, hcopies, hdelta, ?_⟩
      split at hstep
      · exact Or.inl (Option.some.inj hstep).symm
      · rename_i msg maxTs hpush
        obtain ⟨hcount, rfl, rfl⟩ : _ ∧ _ = msg ∧ maxSentTs delta = maxTs := by
          simpa [buildPush] using hpush
        exact Or.inr ⟨_, hcount, rfl, rfl, rfl, (Option.some.inj hstep).symm⟩
    · simp at hstep
  · simp at hstep

/-! ### Every step -/

theorem step_spec {a : Action ι} (hstep : c.step net a = some c') : Steps net c a c' := by
  cases a with
  | callSet n key value now => exact steps_of_storeStep rfl hstep
  | advance n i => exact steps_of_storeStep rfl hstep
  | beginRound n =>
      obtain ⟨due, rfl⟩ := step_beginRound hstep
      exact Steps.round rfl fun entry hentry => absurd hentry List.not_mem_nil
  | scanPeer n peerId =>
      obtain ⟨info, due, yielded, hinfo, hround, _, rfl⟩ := step_scanPeer hstep
      apply Steps.round rfl
      intro entry hentry
      rcases List.mem_append.mp hentry with hold | hnew
      · rw [hround]
        exact Or.inl hold
      · rw [List.mem_singleton.mp hnew]
        exact Or.inr hinfo
  | startRound n shuffled =>
      obtain ⟨due, yielded, gen, pc, hround, hperm, hcopies, rfl⟩ := step_startRound hstep
      apply Steps.round rfl
      intro entry hentry
      rw [hround]
      exact Or.inl (hperm.mem_iff.mp (hcopies.subset hentry))
  | sendNext n delta =>
      obtain ⟨peerId, info, pc, hcopies, hdelta, rfl | ⟨msg, _, hfrom, haddr, hmsg, rfl⟩⟩ :=
        step_sendNext hstep
      · refine Steps.round rfl fun entry hentry => Or.inl ?_
        rw [hcopies]
        exact List.mem_cons_of_mem _ hentry
      · refine Steps.send ?_ ?_ hdelta hfrom haddr hmsg
        · rw [hcopies]
          exact List.mem_cons_self
        · rw [hcopies]
          exact List.subset_cons_self _ _
  | accept x =>
      simp only [step, Option.bind_eq_bind, Option.bind_eq_some_iff] at hstep
      obtain ⟨ex, hex, r, hr, hstep⟩ := hstep
      split at hstep
      · rename_i hrecv
        simp only [Option.bind_eq_some_iff, storeStep, Option.map_eq_some_iff] at hstep
        obtain ⟨_, ⟨live, hlive, rfl⟩, hstep⟩ := hstep
        obtain rfl := Option.some.inj hstep
        exact Steps.accept hex hr hrecv hlive
      · simp at hstep
  | register x =>
      simp only [step, Option.bind_eq_bind, Option.bind_eq_some_iff] at hstep
      obtain ⟨ex, hex, hstep⟩ := hstep
      split at hstep
      · rename_i r task hrecv
        split at hstep
        · rename_i delta updated htask
          obtain rfl := Option.some.inj hstep
          exact Steps.register hex hrecv htask
        · simp at hstep
      · simp at hstep
  | writeAck x =>
      simp only [step, Option.bind_eq_bind, Option.bind_eq_some_iff] at hstep
      obtain ⟨ex, hex, hstep⟩ := hstep
      split at hstep
      · rename_i r merged hrecv
        obtain rfl := Option.some.inj hstep
        exact Steps.writeAck hex hrecv
      · simp at hstep
  | recvAck x =>
      simp only [step, Option.bind_eq_bind, Option.bind_eq_some_iff] at hstep
      obtain ⟨ex, hex, hstep⟩ := hstep
      split at hstep
      · rename_i ack hsend hrecv
        obtain rfl := Option.some.inj hstep
        exact Steps.recvAck hex hsend hrecv
      · simp at hstep
  | failSend x =>
      simp only [step, Option.bind_eq_bind, Option.bind_eq_some_iff] at hstep
      obtain ⟨ex, hex, hstep⟩ := hstep
      split at hstep
      · rename_i hsend
        obtain rfl := Option.some.inj hstep
        exact Steps.failSend hex hsend
      · simp at hstep
  | lose x =>
      simp only [step, Option.bind_eq_bind, Option.bind_eq_some_iff] at hstep
      obtain ⟨ex, hex, hstep⟩ := hstep
      split at hstep
      · simp at hstep
      · obtain rfl := Option.some.inj hstep
        exact Steps.lose hex
  | restart n =>
      obtain rfl := Option.some.inj hstep
      exact Steps.restart

/-! ### One node -/

/-- What a step makes of node `m`. -/
inductive NodeSteps (net : Network ι) (c : Cluster ι) (a : Action ι) (m : ι) : Node → Prop
  | same : NodeSteps net c a m (c.nodes m)
  | store {sa : StoreAction} {live : LiveStore} (hact : a.storeAction = some (m, sa))
      (hlive : (c.nodes m).live.step sa = some live) :
      NodeSteps net c a m { c.nodes m with live := live }
  | accept {x : Nat} {ex : Exchange ι} {live : LiveStore} (hact : a = .accept x)
      (hex : c.exchanges[x]? = some ex)
      (hlive : (c.nodes m).live.step (.callMerge ex.msg.deltas) = some live) :
      NodeSteps net c a m { c.nodes m with live := live }
  | round {gen : Nat} {pc : RoundPc}
      (hcopies : ∀ entry ∈ pc.copies, entry ∈ (c.nodes m).round.copies
        ∨ (c.nodes m).peers.lookup entry.1 = some entry.2) :
      NodeSteps net c a m { c.nodes m with generation := gen, round := pc }
  | register {x : Nat} {ex : Exchange ι} (hact : a = .register x)
      (hex : c.exchanges[x]? = some ex) :
      NodeSteps net c a m { c.nodes m with
        peers := (c.nodes m).peers.upsert ex.msg.fromNodeId ex.msg.fromGossipAddr
          PeerInfo.markSeen }
  | recvAck {x : Nat} {ex : Exchange ι} {ack : GossipAck} (hact : a = .recvAck x)
      (hex : c.exchanges[x]? = some ex) (hsender : ex.sender = m) (hsend : ex.send = .waiting)
      (hrecv : ex.recv = .acked ack) :
      NodeSteps net c a m { c.nodes m with
        peers := (c.nodes m).peers.upsert ex.peerId ex.peerAddr
          (PeerInfo.recordExchange ex.maxSentTs) }
  | restart (hact : a = .restart m) : NodeSteps net c a m (Node.new (net.config m))

theorem NodeSteps.update {a : Action ι} {n : ι} {node : Node} (h : NodeSteps net c a n node)
    (m : ι) :
    NodeSteps net c a m (Function.update c.nodes n node m) :=
  (Function.forall_update_iff c.nodes (NodeSteps net c a)).mpr ⟨h, fun _ _ => NodeSteps.same⟩ m

theorem Steps.node {a : Action ι} (h : Steps net c a c') (m : ι) :
    NodeSteps net c a m (c'.nodes m) := by
  cases h with
  | store hact hlive => exact NodeSteps.update (NodeSteps.store hact hlive) m
  | round hact hcopies => exact NodeSteps.update (NodeSteps.round hcopies) m
  | send hcopy hcopies hdelta hfrom haddr hmsg =>
      exact NodeSteps.update (NodeSteps.round fun entry hentry => Or.inl (hcopies hentry)) m
  | accept hex hr hrecv hlive => exact NodeSteps.update (NodeSteps.accept rfl hex hlive) m
  | register hex hrecv htask => exact NodeSteps.update (NodeSteps.register rfl hex) m
  | recvAck hex hsend hrecv =>
      exact NodeSteps.update (NodeSteps.recvAck rfl hex rfl hsend hrecv) m
  | writeAck hex hrecv => exact NodeSteps.same
  | failSend hex hsend => exact NodeSteps.same
  | lose hex => exact NodeSteps.same
  | restart => exact NodeSteps.update (NodeSteps.restart rfl) m

omit [DecidableEq ι] in
theorem NodeSteps.live {a : Action ι} {m : ι} {node : Node} (h : NodeSteps net c a m node)
    (hm : a ≠ .restart m) :
    node.live = (c.nodes m).live ∨ ∃ sa, (c.nodes m).live.step sa = some node.live
      ∧ (a.storeAction = some (m, sa)
        ∨ ∃ x ex, a = .accept x ∧ c.exchanges[x]? = some ex ∧ sa = .callMerge ex.msg.deltas) := by
  cases h with
  | same => exact Or.inl rfl
  | store hact hlive => exact Or.inr ⟨_, hlive, Or.inl hact⟩
  | accept hact hex hlive => exact Or.inr ⟨_, hlive, Or.inr ⟨_, _, hact, hex, rfl⟩⟩
  | round hcopies => exact Or.inl rfl
  | register hact hex => exact Or.inl rfl
  | recvAck hact hex hsender hsend hrecv => exact Or.inl rfl
  | restart hact => exact absurd hact hm

theorem Steps.behind {a : Action ι} (h : Steps net c a c') {m : ι} (hm : a ≠ .restart m)
    (k : String) :
    Behind LwwValue.stamp (c.get m k) (c'.get m k) := by
  unfold get
  obtain hlive | ⟨sa, hlive, _⟩ := (h.node m).live hm
  · rw [hlive]
    exact Behind.refl _
  · exact LiveStore.step_behind hlive k

theorem Steps.dominates {a : Action ι} (h : Steps net c a c') {m : ι} (hm : a ≠ .restart m)
    {k : String} {v : LwwValue} (hv : c.Dominates m k v) : c'.Dominates m k v :=
  hv.mono (h.behind hm k)

/-! ### One exchange -/

/-- What a step that is no restart makes of an exchange. -/
inductive ExchangeSteps (net : Network ι) (c c' : Cluster ι) (ex : Exchange ι) : Exchange ι → Prop
  | same : ExchangeSteps net c c' ex ex
  | accept {r : ι} {task : Nat} (hr : net.resolve ex.peerAddr = some r)
      (hrecv : ex.recv = .inFlight)
      (htask : (c'.nodes r).live.tasks[task]? = some (.merge ex.msg.deltas .called)) :
      ExchangeSteps net c c' ex { ex with recv := .merging r task }
  | register {r : ι} {task : Nat} {delta : StateDelta} {updated : List String}
      (hrecv : ex.recv = .merging r task)
      (htask : (c.nodes r).live.tasks[task]? = some (.merge delta (.returned updated))) :
      ExchangeSteps net c c' ex { ex with recv := .registered r updated.length }
  | writeAck {r : ι} {merged : Nat} {ack : GossipAck} (hrecv : ex.recv = .registered r merged) :
      ExchangeSteps net c c' ex { ex with recv := .acked ack }
  | recvAck {ack : GossipAck} (hsend : ex.send = .waiting) (hrecv : ex.recv = .acked ack) :
      ExchangeSteps net c c' ex { ex with send := .acked, recv := .closed }
  | failSend (hsend : ex.send = .waiting) : ExchangeSteps net c c' ex { ex with send := .failed }
  | lose : ExchangeSteps net c c' ex { ex with recv := .closed }

/-- An exchange as `gossip_round` begins it. -/
structure Pushed (c : Cluster ι) (ex : Exchange ι) : Prop where
  copy : ∃ info, (ex.peerId, info) ∈ (c.nodes ex.sender).round.copies
    ∧ ex.peerAddr = info.gossipAddr
    ∧ ex.msg.deltas.Perm ((c.nodes ex.sender).live.deltaSince info.lastSyncTs)
  maxSentTs : ex.maxSentTs = StateSync.maxSentTs ex.msg.deltas
  send : ex.send = .waiting
  recv : ex.recv = .inFlight

omit [DecidableEq ι] in
theorem exchange_of_set {x y : Nat} {ex ex₁ ex' : Exchange ι}
    (hex : c.exchanges[x]? = some ex) (hmove : ExchangeSteps net c c' ex ex₁)
    (hy : (c.exchanges.set x ex₁)[y]? = some ex') :
    ∃ ex₀, c.exchanges[y]? = some ex₀ ∧ ExchangeSteps net c c' ex₀ ex' := by
  by_cases hxy : x = y
  · subst hxy
    obtain ⟨hlt, _⟩ := List.getElem?_eq_some_iff.mp hex
    rw [List.getElem?_set_self hlt, Option.some.injEq] at hy
    subst hy
    exact ⟨ex, hex, hmove⟩
  · rw [List.getElem?_set_ne hxy] at hy
    exact ⟨ex', hy, ExchangeSteps.same⟩

theorem Steps.exchange_of_restart {n : ι} (h : Steps net c (.restart n) c') {x : Nat}
    {ex' : Exchange ι} (hx : c'.exchanges[x]? = some ex') :
    ∃ ex, c.exchanges[x]? = some ex ∧ ex' = ex.afterRestart n := by
  cases h with
  | store hact hlive => simp [Action.storeAction] at hact
  | round hact hcopies => simp [Action.roundNode] at hact
  | restart =>
      rw [List.getElem?_map, Option.map_eq_some_iff] at hx
      obtain ⟨ex, hex, heq⟩ := hx
      exact ⟨ex, hex, heq.symm⟩

theorem Steps.exchange {a : Action ι} (h : Steps net c a c') (ha : ∀ n, a ≠ .restart n) {x : Nat}
    {ex' : Exchange ι} (hx : c'.exchanges[x]? = some ex') :
    (∃ ex, c.exchanges[x]? = some ex ∧ ExchangeSteps net c c' ex ex') ∨
      (x = c.exchanges.length ∧ Pushed c ex' ∧ ∀ n, (c'.nodes n).live = (c.nodes n).live) := by
  cases h with
  | store hact hlive => exact Or.inl ⟨ex', hx, ExchangeSteps.same⟩
  | round hact hcopies => exact Or.inl ⟨ex', hx, ExchangeSteps.same⟩
  | @send n peerId info pc delta msg hcopy hcopies hdelta hfrom haddr hmsg =>
      obtain hold | ⟨hlength, rfl⟩ := Slots.getElem?_concat_cases hx
      · exact Or.inl ⟨ex', hold, ExchangeSteps.same⟩
      · refine Or.inr ⟨hlength, ?_, ?_⟩
        · exact
            { copy := ⟨info, hcopy, rfl, hmsg ▸ hdelta⟩
              maxSentTs := congrArg maxSentTs hmsg.symm
              send := rfl
              recv := rfl }
        · intro m
          by_cases hm : m = n
          · subst hm
            simp
          · simp [Function.update_of_ne hm]
  | @accept x ex r live hex hr hrecv hlive =>
      refine Or.inl (exchange_of_set hex (ExchangeSteps.accept hr hrecv ?_) hx)
      obtain rfl := Option.some.inj hlive
      simp [setNode, setExchange]
  | register hex hrecv htask =>
      exact Or.inl (exchange_of_set hex (ExchangeSteps.register hrecv htask) hx)
  | recvAck hex hsend hrecv =>
      exact Or.inl (exchange_of_set hex (ExchangeSteps.recvAck hsend hrecv) hx)
  | writeAck hex hrecv =>
      exact Or.inl (exchange_of_set hex (ExchangeSteps.writeAck hrecv) hx)
  | failSend hex hsend =>
      exact Or.inl (exchange_of_set hex (ExchangeSteps.failSend hsend) hx)
  | lose hex => exact Or.inl (exchange_of_set hex ExchangeSteps.lose hx)
  | @restart n => exact absurd rfl (ha n)

end Cluster

end StateSync
