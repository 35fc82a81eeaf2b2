import StateSync.Proof.Delivery
import StateSync.Proof.PeerTable

/-!
# Mutual discovery

A node learns of another one from its seed list or from a message it handles. `Simulates` says that
the peer table of a node in the cluster is a run of the table on its own, with the messages that
were sent to the node. What a node has been told is then compared with what the other node knows:
whoever pushes to a node has an entry for it, and whoever is acknowledged has been registered.
-/

namespace StateSync

namespace Cluster

variable {ι : Type} {net : Network ι} {c c' : Cluster ι}

/-! ### One peer table -/

/-- What a step that is no restart makes of the peer table of node `m`. -/
inductive TableSteps (c c' : Cluster ι) (m : ι) : PeerTable → Prop
  | same : TableSteps c c' m (c.nodes m).peers
  | register {x : Nat} {ex : Exchange ι} {i : Nat} (hex : c.exchanges[x]? = some ex)
      (hrecv : ex.recv = .merging m i) :
      TableSteps c c' m ((c.nodes m).peers.upsert ex.msg.fromNodeId ex.msg.fromGossipAddr
        PeerInfo.markSeen)
  | recvAck {x : Nat} {ex : Exchange ι} {ack : GossipAck} (hex : c.exchanges[x]? = some ex)
      (hsender : ex.sender = m) (hsend : ex.send = .waiting) (hrecv : ex.recv = .acked ack)
      (hacked : c'.exchanges[x]? = some { ex with send := .acked, recv := .closed }) :
      TableSteps c c' m ((c.nodes m).peers.upsert ex.peerId ex.peerAddr
        (PeerInfo.recordExchange ex.maxSentTs))

variable [DecidableEq ι]

theorem TableSteps.update {n : ι} {peers : PeerTable} (h : TableSteps c c' n peers) {node : Node}
    (hpeers : node.peers = peers) (m : ι) :
    TableSteps c c' m (Function.update c.nodes n node m).peers :=
  (Function.forall_update_iff c.nodes fun m node => TableSteps c c' m node.peers).mpr
    ⟨hpeers ▸ h, fun _ _ => TableSteps.same⟩ m

theorem Steps.table {a : Action ι} (h : Steps net c a c') {m : ι} (hm : a ≠ .restart m) :
    TableSteps c c' m (c'.nodes m).peers := by
  cases h with
  | store hact hlive => exact TableSteps.update TableSteps.same (by rfl) m
  | round hact hcopies => exact TableSteps.update TableSteps.same (by rfl) m
  | send hcopy hcopies hdelta hfrom haddr hmsg => exact TableSteps.update TableSteps.same (by rfl) m
  | accept hex hr hrecv hlive => exact TableSteps.update TableSteps.same (by rfl) m
  | register hex hrecv htask => exact TableSteps.update (TableSteps.register hex hrecv) (by rfl) m
  | recvAck hex hsend hrecv =>
      obtain ⟨hlt, _⟩ := List.getElem?_eq_some_iff.mp hex
      exact TableSteps.update
        (TableSteps.recvAck hex rfl hsend hrecv (List.getElem?_set_self hlt)) (by rfl) m
  | writeAck hex hrecv => exact TableSteps.same
  | failSend hex hsend => exact TableSteps.same
  | lose hex => exact TableSteps.same
  | @restart n =>
      have hne : m ≠ n := by
        rintro rfl
        exact hm rfl
      have hnode : Function.update c.nodes n (Node.new (net.config n)) m = c.nodes m :=
        Function.update_of_ne hne _ _
      simp only [hnode]
      exact TableSteps.same

theorem Steps.exists_of_old {a : Action ι} (hsteps : Steps net c a c') {x : Nat} {ex : Exchange ι}
    (hx : c.exchanges[x]? = some ex) :
    x < c.exchanges.length ∧ ∃ ex', c'.exchanges[x]? = some ex' := by
  obtain ⟨hlt, _⟩ := List.getElem?_eq_some_iff.mp hx
  exact ⟨hlt, _, List.getElem?_eq_getElem (hlt.trans_le hsteps.length_le)⟩

theorem Steps.samePush_of_old {a : Action ι} (hsteps : Steps net c a c') {x : Nat}
    {ex : Exchange ι} (hx : c.exchanges[x]? = some ex) :
    ∃ ex', c'.exchanges[x]? = some ex' ∧ SamePush ex ex' := by
  obtain ⟨hlt, ex', hx'⟩ := hsteps.exists_of_old hx
  obtain ⟨ex₀, hex₀, hsame, _⟩ | ⟨hlength, _⟩ := hsteps.samePush hx'
  · obtain rfl : ex = ex₀ := Option.some.inj (hx.symm.trans hex₀)
    exact ⟨ex', hx', hsame⟩
  · omega

theorem Steps.exchange_of_old {a : Action ι} (hsteps : Steps net c a c') (ha : ∀ n, a ≠ .restart n)
    {x : Nat} {ex : Exchange ι} (hx : c.exchanges[x]? = some ex) :
    ∃ ex', c'.exchanges[x]? = some ex' ∧ ExchangeSteps net c c' ex ex' := by
  obtain ⟨hlt, ex', hx'⟩ := hsteps.exists_of_old hx
  obtain ⟨ex₀, hex₀, hmove⟩ | ⟨hlength, _⟩ := hsteps.exchange ha hx'
  · obtain rfl : ex = ex₀ := Option.some.inj (hx.symm.trans hex₀)
    exact ⟨ex', hx', hmove⟩
  · omega

omit [DecidableEq ι] in
theorem ExchangeSteps.acked {ex ex' : Exchange ι} (h : ExchangeSteps net c c' ex ex')
    (hacked : ex.send = .acked) : ex'.send = .acked := by
  cases h with
  | recvAck hsend hrecv => rfl
  | failSend hsend => simp [hacked] at hsend
  | _ => exact hacked

/-! ### The table on its own -/

/-- A run of the peer table of node `n` on its own that leads to what it is in the cluster: each
push of the node is one of its pushes, and each message it handled was sent to the node. -/
structure Simulates (net : Network ι) (n : ι) (bs : List RegistryAction) (registry : Registry)
    (c : Cluster ι) : Prop where
  run : Machine.run Registry.step (Registry.new (net.config n).seedPeers) bs = some registry
  peers : registry.peers = (c.nodes n).peers
  pushes : ∀ (x : Nat) ex, c.exchanges[x]? = some ex → ex.sender = n →
    (ex.peerId, ex.peerAddr) ∈ registry.pushes
  handled : ∀ msg ∈ Registry.handled bs, ∃ (x : Nat) (ex : Exchange ι),
    c.exchanges[x]? = some ex ∧ net.resolve ex.peerAddr = some n
      ∧ msg = (ex.msg.fromNodeId, ex.msg.fromGossipAddr)

omit [DecidableEq ι] in
theorem simulates_init (net : Network ι) (n : ι) :
    Simulates net n [] (Registry.new (net.config n).seedPeers) (init net) where
  run := rfl
  peers := rfl
  pushes := by simp [init]
  handled := fun _ hmsg => absurd hmsg List.not_mem_nil

omit [DecidableEq ι] in
theorem Simulates.table {n : ι} {bs : List RegistryAction} {registry : Registry}
    (h : Simulates net n bs registry c) (hwf : WellFormed net c) {peers : PeerTable}
    (hpeers : TableSteps c c' n peers) :
    ∃ more registry', Machine.run Registry.step registry more = some registry'
      ∧ registry'.peers = peers ∧ registry'.pushes = registry.pushes
      ∧ ∀ msg ∈ Registry.handled more, ∃ (x : Nat) (ex : Exchange ι),
          c.exchanges[x]? = some ex ∧ net.resolve ex.peerAddr = some n
            ∧ msg = (ex.msg.fromNodeId, ex.msg.fromGossipAddr) := by
  cases hpeers with
  | same => exact ⟨[], registry, rfl, h.peers, rfl, fun _ hmsg => absurd hmsg List.not_mem_nil⟩
  | @register x ex i hex hrecv =>
      refine ⟨[.inbound ex.msg.fromNodeId ex.msg.fromGossipAddr], _, rfl, ?_, rfl, ?_⟩
      · rw [h.peers]
      · intro msg hmsg
        obtain rfl : msg = (ex.msg.fromNodeId, ex.msg.fromGossipAddr) := by
          simpa [Registry.handled] using hmsg
        exact ⟨x, ex, hex, (hwf.merging x ex hex n i hrecv).1, rfl⟩
  | @recvAck x ex ack hex hsender hsend hrecv hacked =>
      obtain ⟨i, hi⟩ := List.mem_iff_getElem?.mp (h.pushes x ex hex hsender)
      have hstep : registry.step (.ack i ex.maxSentTs) = some { registry with
          peers := (c.nodes n).peers.upsert ex.peerId ex.peerAddr
            (PeerInfo.recordExchange ex.maxSentTs) } := by
        simp [Registry.step, hi, h.peers]
      refine ⟨[.ack i ex.maxSentTs], _, Machine.run_cons_eq_some.mpr ⟨_, hstep, rfl⟩, rfl, rfl, ?_⟩
      exact fun _ hmsg => absurd hmsg List.not_mem_nil

/-- One step of the cluster is at most one step of the table and one push. -/
theorem Simulates.step {n : ι} {bs : List RegistryAction} {registry : Registry}
    (h : Simulates net n bs registry c) (hwf : WellFormed net c) (hwf' : WellFormed net c')
    {a : Action ι} (hsteps : Steps net c a c') (hn : a ≠ .restart n) :
    ∃ bs' registry', Simulates net n bs' registry' c' := by
  obtain ⟨more, registry', hrun, hpeers, hpushes, hhandled⟩ := h.table hwf (hsteps.table hn)
  have hrun' := Machine.run_append_eq_some.mpr ⟨registry, h.run, hrun⟩
  have hold : ∀ msg ∈ Registry.handled (bs ++ more), ∃ (x : Nat) (ex' : Exchange ι),
      c'.exchanges[x]? = some ex' ∧ net.resolve ex'.peerAddr = some n
        ∧ msg = (ex'.msg.fromNodeId, ex'.msg.fromGossipAddr) := by
    intro msg hmsg
    rw [Registry.handled, List.filterMap_append, List.mem_append] at hmsg
    obtain ⟨x, ex, hex, hresolve, hmsg⟩ := hmsg.elim (h.handled msg) (hhandled msg)
    obtain ⟨ex', hex', hsame⟩ := hsteps.samePush_of_old hex
    exact ⟨x, ex', hex', by rw [hsame.peerAddr, hresolve], by rw [hmsg, hsame.msg]⟩
  by_cases hpush : ∃ ex', c'.exchanges[c.exchanges.length]? = some ex' ∧ ex'.sender = n
      ∧ Pushed c ex'
  · obtain ⟨ex', hex', hsender, hpushed⟩ := hpush
    obtain ⟨info, hinfo, haddr, _⟩ := hwf'.waiting _ ex' hex' hpushed.send
    rw [hsender, ← hpeers] at hinfo
    refine ⟨bs ++ more ++ [.push ex'.peerId],
      { registry' with pushes := registry'.pushes ++ [(ex'.peerId, ex'.peerAddr)] }, ?_⟩
    refine ⟨?_, hpeers, ?_, ?_⟩
    · refine Machine.run_concat_eq_some.mpr ⟨registry', hrun', ?_⟩
      simp [Registry.step, hinfo, haddr]
    · intro x ex hex hsender'
      obtain ⟨ex₀, hex₀, hsame, _⟩ | ⟨rfl, _⟩ := hsteps.samePush hex
      · rw [hsame.sender] at hsender'
        rw [hsame.peerId, hsame.peerAddr, hpushes]
        exact List.mem_append_left _ (h.pushes x ex₀ hex₀ hsender')
      · obtain rfl : ex' = ex := Option.some.inj (hex'.symm.trans hex)
        exact List.mem_append_right _ (List.mem_singleton_self _)
    · intro msg hmsg
      rw [Registry.handled_concat] at hmsg
      exact hold msg (by simpa [Registry.handled] using hmsg)
  · refine ⟨bs ++ more, registry', hrun', hpeers, ?_, hold⟩
    intro x ex hex hsender
    obtain ⟨ex₀, hex₀, hsame, _⟩ | ⟨rfl, hpushed, _⟩ := hsteps.samePush hex
    · rw [hsame.sender] at hsender
      rw [hsame.peerId, hsame.peerAddr, hpushes]
      exact h.pushes x ex₀ hex₀ hsender
    · exact absurd ⟨ex, hex, hsender, hpushed⟩ hpush

theorem run_simulates {as : List (Action ι)} {n : ι} (hstable : Action.restart n ∉ as)
    (hrun : Machine.run (step net) (init net) as = some c) :
    ∃ bs registry, Simulates net n bs registry c := by
  refine Machine.run_induction (P := fun as c => Action.restart n ∉ as →
    ∃ bs registry, Simulates net n bs registry c) ?_ ?_ hrun hstable
  · intro _
    exact ⟨_, _, simulates_init net n⟩
  · intro as t a u hrun ih hstep hstable
    rw [List.mem_append, not_or, List.mem_singleton] at hstable
    obtain ⟨bs, registry, h⟩ := ih hstable.1
    have hwf := run_wellFormed hrun
    exact h.step hwf (hwf.step hstep) (step_spec hstep) (Ne.symm hstable.2)

/-! ### Two tables -/

/-- What every run without restarts keeps. Messages carry the sender's own id and address; the
sender has an entry for whom it pushed to; the receiver that handled a message has an entry for its
sender; and an entry is counted only after an acknowledgement or a message from the peer. -/
structure Acquainted (net : Network ι) (c : Cluster ι) : Prop where
  nodeId : ∀ n, (c.nodes n).live.nodeId = net.ids n
  named : ∀ (x : Nat) ex, c.exchanges[x]? = some ex → ex.msg.fromNodeId = net.ids ex.sender
    ∧ ex.msg.fromGossipAddr = (net.config ex.sender).gossipAddr
  sender : ∀ (x : Nat) ex, c.exchanges[x]? = some ex →
    (c.nodes ex.sender).peers.Covers ex.peerId ex.peerAddr 0
  receiver : ∀ (x : Nat) ex, c.exchanges[x]? = some ex → ex.Handled →
    ∃ r addr, net.resolve ex.peerAddr = some r
      ∧ (c.nodes r).peers.Covers ex.msg.fromNodeId addr 0
  counted : ∀ n p info, (c.nodes n).peers.lookup p = some info → 0 < info.exchangeCount →
    (∃ (x : Nat) (ex : Exchange ι), c.exchanges[x]? = some ex ∧ ex.sender = n ∧ ex.peerId = p
        ∧ ex.send = .acked)
      ∨ ∃ (x : Nat) (ex : Exchange ι), c.exchanges[x]? = some ex
          ∧ net.resolve ex.peerAddr = some n ∧ ex.msg.fromNodeId = p

omit [DecidableEq ι] in
theorem acquainted_init (net : Network ι) : Acquainted net (init net) where
  nodeId := fun _ => rfl
  named := by simp [init]
  sender := by simp [init]
  receiver := by simp [init]
  counted := by
    intro n p info hinfo hcount
    have hinfo : (PeerTable.registerSeeds ∅ (net.config n).seedPeers).lookup p = some info := hinfo
    rw [PeerTable.lookup_registerSeeds] at hinfo
    split at hinfo
    · obtain rfl := Option.some.inj hinfo
      simp [PeerInfo.new] at hcount
    · simp at hinfo

theorem Steps.nodeId {a : Action ι} (hsteps : Steps net c a c') (ha : ∀ n, a ≠ .restart n) (n : ι) :
    (c'.nodes n).live.nodeId = (c.nodes n).live.nodeId := by
  obtain hlive | ⟨sa, hlive, _⟩ := (hsteps.node n).live (ha n)
  · rw [hlive]
  · exact LiveStore.step_nodeId hlive

theorem Steps.pushed_from {a : Action ι} (hsteps : Steps net c a c') {ex : Exchange ι}
    (hex : c'.exchanges[c.exchanges.length]? = some ex) :
    ex.msg.fromNodeId = (c.nodes ex.sender).live.nodeId
      ∧ ex.msg.fromGossipAddr = (net.config ex.sender).gossipAddr := by
  cases hsteps with
  | send hcopy hcopies hdelta hfrom haddr hmsg =>
      rw [List.getElem?_concat_length, Option.some.injEq] at hex
      obtain rfl := hex
      exact ⟨hfrom, haddr⟩
  | _ => simp [setNode, setExchange] at hex

/-- Node `n` had a push to the peer acknowledged, or was sent a message by it. -/
def Met (net : Network ι) (c : Cluster ι) (n : ι) (p : String) : Prop :=
  (∃ (x : Nat) (ex : Exchange ι), c.exchanges[x]? = some ex ∧ ex.sender = n ∧ ex.peerId = p
      ∧ ex.send = .acked)
    ∨ ∃ (x : Nat) (ex : Exchange ι), c.exchanges[x]? = some ex
        ∧ net.resolve ex.peerAddr = some n ∧ ex.msg.fromNodeId = p

theorem Met.step {n : ι} {p : String} (h : Met net c n p) {a : Action ι}
    (hsteps : Steps net c a c') (ha : ∀ n, a ≠ .restart n) : Met net c' n p := by
  obtain ⟨x, ex, hex, rfl, rfl, hacked⟩ | ⟨x, ex, hex, hresolve, rfl⟩ := h
  · obtain ⟨ex', hex', hmove⟩ := hsteps.exchange_of_old ha hex
    exact Or.inl ⟨x, ex', hex', hmove.samePush.sender, hmove.samePush.peerId, hmove.acked hacked⟩
  · obtain ⟨ex', hex', hsame⟩ := hsteps.samePush_of_old hex
    exact Or.inr ⟨x, ex', hex', by rw [hsame.peerAddr, hresolve], by rw [hsame.msg]⟩

theorem Acquainted.step_counted (hwf : WellFormed net c) (h : Acquainted net c) {a : Action ι}
    (hsteps : Steps net c a c') (ha : ∀ n, a ≠ .restart n) {n : ι} {p : String} {info' : PeerInfo}
    (hinfo : (c'.nodes n).peers.lookup p = some info') (hcount : 0 < info'.exchangeCount) :
    Met net c' n p := by
  have hkeep {info : PeerInfo} (hold : (c.nodes n).peers.lookup p = some info)
      (hcount : 0 < info.exchangeCount) : Met net c' n p :=
    Met.step (h.counted n p info hold hcount) hsteps ha
  have htable := hsteps.table (ha n)
  generalize (c'.nodes n).peers = peers at htable hinfo
  cases htable with
  | same => exact hkeep hinfo hcount
  | @register x ex i hex hrecv =>
      by_cases hp : p = ex.msg.fromNodeId
      · obtain ⟨ex', hex', hsame⟩ := hsteps.samePush_of_old hex
        refine Or.inr ⟨x, ex', hex', ?_, by rw [hsame.msg, hp]⟩
        rw [hsame.peerAddr]
        exact (hwf.merging x ex hex n i hrecv).1
      · rw [PeerTable.lookup_upsert_of_ne hp] at hinfo
        exact hkeep hinfo hcount
  | @recvAck x ex ack hex hsender hsend hrecv hacked =>
      by_cases hp : p = ex.peerId
      · exact Or.inl ⟨x, _, hacked, hsender, hp.symm, rfl⟩
      · rw [PeerTable.lookup_upsert_of_ne hp] at hinfo
        exact hkeep hinfo hcount

/-- A message is handled by no other step than the one that registers its sender. -/
theorem Steps.handled_cases {a : Action ι} (hsteps : Steps net c a c') (ha : ∀ n, a ≠ .restart n)
    {x : Nat} {ex' : Exchange ι} (hx : c'.exchanges[x]? = some ex') (hhandled : ex'.Handled) :
    (∃ ex, c.exchanges[x]? = some ex ∧ ex.Handled)
      ∨ ∃ ex r i, c.exchanges[x]? = some ex ∧ ex.recv = .merging r i
          ∧ (c'.nodes r).peers = (c.nodes r).peers.upsert ex.msg.fromNodeId
              ex.msg.fromGossipAddr PeerInfo.markSeen := by
  cases hsteps with
  | store hact hlive => exact Or.inl ⟨ex', hx, hhandled⟩
  | round hact hcopies => exact Or.inl ⟨ex', hx, hhandled⟩
  | send hcopy hcopies hdelta hfrom haddr hmsg =>
      obtain hold | ⟨_, rfl⟩ := Slots.getElem?_concat_cases hx
      · exact Or.inl ⟨ex', hold, hhandled⟩
      · simp [Exchange.Handled] at hhandled
  | accept hex hr hrecv hlive =>
      refine Or.inl (Slots.of_set hex ?_ hx hhandled)
      exact fun h => Or.inl (by simpa [Exchange.Handled] using h)
  | @register y ex r task delta updated hex hrecv htask =>
      by_cases hxy : y = x
      · subst hxy
        exact Or.inr ⟨ex, r, task, hex, hrecv, by simp [setNode, setExchange]⟩
      · rw [setExchange, List.getElem?_set_ne hxy] at hx
        exact Or.inl ⟨ex', hx, hhandled⟩
  | recvAck hex hsend hrecv =>
      exact Or.inl (Slots.of_set hex (fun _ => Or.inr (Or.inr ⟨_, hrecv⟩)) hx hhandled)
  | writeAck hex hrecv =>
      exact Or.inl (Slots.of_set hex (fun _ => Or.inr (Or.inl ⟨_, _, hrecv⟩)) hx hhandled)
  | failSend hex hsend =>
      refine Or.inl (Slots.of_set hex ?_ hx hhandled)
      exact fun h => Or.inr (by simpa [Exchange.Handled] using h)
  | lose hex =>
      refine Or.inl (Slots.of_set hex ?_ hx hhandled)
      exact fun h => Or.inl (by simpa [Exchange.Handled] using h)
  | @restart n => exact absurd rfl (ha n)

theorem Acquainted.step_receiver (hwf : WellFormed net c) (h : Acquainted net c) {a : Action ι}
    (hsteps : Steps net c a c') (ha : ∀ n, a ≠ .restart n) {x : Nat} {ex' : Exchange ι}
    (hex' : c'.exchanges[x]? = some ex') (hhandled : ex'.Handled) :
    ∃ r addr, net.resolve ex'.peerAddr = some r
      ∧ (c'.nodes r).peers.Covers ex'.msg.fromNodeId addr 0 := by
  have hsame {ex : Exchange ι} (hex : c.exchanges[x]? = some ex) : SamePush ex ex' := by
    obtain ⟨ex₁, hex₁, hsame⟩ := hsteps.samePush_of_old hex
    obtain rfl : ex₁ = ex' := Option.some.inj (hex₁.symm.trans hex')
    exact hsame
  obtain ⟨ex, hex, hold⟩ | ⟨ex, r, i, hex, hrecv, hpeers⟩ :=
    hsteps.handled_cases ha hex' hhandled
  · rw [(hsame hex).peerAddr, (hsame hex).msg]
    obtain ⟨r, addr, hresolve, hcovers⟩ := h.receiver x ex hex hold
    exact ⟨r, addr, hresolve, (hsteps.node r).covers (ha r) hcovers⟩
  · rw [(hsame hex).peerAddr, (hsame hex).msg]
    have hlookup := PeerTable.lookup_upsert_self (c.nodes r).peers ex.msg.fromNodeId
      ex.msg.fromGossipAddr PeerInfo.markSeen
    rw [← hpeers] at hlookup
    exact ⟨r, _, (hwf.merging x ex hex r i hrecv).1, _, hlookup, rfl, Nat.zero_le _⟩

theorem Acquainted.step (hwf : WellFormed net c) (hwf' : WellFormed net c')
    (h : Acquainted net c) {a : Action ι} (hsteps : Steps net c a c')
    (ha : ∀ n, a ≠ .restart n) : Acquainted net c' where
  nodeId := fun n => (hsteps.nodeId ha n).trans (h.nodeId n)
  named := by
    intro x ex' hex'
    obtain ⟨ex, hex, hsame, _⟩ | ⟨rfl, _⟩ := hsteps.samePush hex'
    · rw [hsame.msg, hsame.sender]
      exact h.named x ex hex
    · rw [← h.nodeId]
      exact hsteps.pushed_from hex'
  sender := by
    intro x ex' hex'
    obtain ⟨ex, hex, hsame, _⟩ | ⟨_, hpushed, _⟩ := hsteps.samePush hex'
    · rw [hsame.sender, hsame.peerId, hsame.peerAddr]
      exact (hsteps.node ex.sender).covers (ha _) (h.sender x ex hex)
    · exact hwf'.waiting x ex' hex' hpushed.send
  receiver := fun _ _ hex' hhandled => h.step_receiver hwf hsteps ha hex' hhandled
  counted := fun _ _ _ hinfo hcount => h.step_counted hwf hsteps ha hinfo hcount

theorem run_acquainted {as : List (Action ι)} (hstable : ∀ n, Action.restart n ∉ as)
    (hrun : Machine.run (step net) (init net) as = some c) : Acquainted net c := by
  have hboth : WellFormed net c ∧ Acquainted net c := by
    refine Machine.run_invariant_of_guarded (P := fun c => WellFormed net c ∧ Acquainted net c)
      ?_ ⟨wellFormed_init net, acquainted_init net⟩ (guarded_stable hstable _) hrun
    rintro s a t ⟨hwf, h⟩ ha hstep
    exact ⟨hwf.step hstep, h.step hwf (hwf.step hstep) (step_spec hstep) ha⟩
  exact hboth.2

omit [DecidableEq ι] in
/-- Where the address of an entry of node `n` comes from. -/
theorem Acquainted.addr_cases (h : Acquainted net c) {n : ι} {bs : List RegistryAction}
    {registry : Registry} (hsim : Simulates net n bs registry c) {p : String} {info : PeerInfo}
    (hinfo : (c.nodes n).peers.lookup p = some info) :
    p ∈ seedAddrs (net.config n).seedPeers ∧ info.gossipAddr = p
      ∨ ∃ (x : Nat) (ex : Exchange ι), c.exchanges[x]? = some ex
          ∧ net.resolve ex.peerAddr = some n ∧ p = net.ids ex.sender
          ∧ info.gossipAddr = (net.config ex.sender).gossipAddr := by
  rw [← hsim.peers] at hinfo
  obtain hseed | ⟨_, hmsg⟩ := (Registry.run_tracked hsim.run).source p info hinfo
  · exact Or.inl hseed
  · obtain ⟨x, ex, hex, hresolve, heq⟩ := hsim.handled _ hmsg
    obtain ⟨rfl, haddr⟩ := Prod.mk.inj heq
    obtain ⟨hid, hfrom⟩ := h.named x ex hex
    exact Or.inr ⟨x, ex, hex, hresolve, hid, haddr.trans hfrom⟩

omit [DecidableEq ι] in
/-- A node that acknowledged a push knows who sent it. -/
theorem Acquainted.known_of_acked (h : Acquainted net c) {x : Nat} {ex : Exchange ι}
    (hex : c.exchanges[x]? = some ex) (hacked : ex.send = .acked) {n : ι}
    (hresolve : net.resolve ex.peerAddr = some n) :
    ∃ info, (c.nodes n).peers.lookup (net.ids ex.sender) = some info := by
  obtain ⟨r, addr, hr, info, hinfo, _⟩ := h.receiver x ex hex (Or.inl hacked)
  obtain rfl : n = r := Option.some.inj (hresolve.symm.trans hr)
  rw [(h.named x ex hex).1] at hinfo
  exact ⟨info, hinfo⟩

/-- **Discovery is mutual.** When node `A` counts an entry with `B`'s address, `B` has an entry with
`A`'s address, unless the id of `A` is among the seeds of `B` and its address is not. -/
theorem discovery_mutual (hids : Function.Injective net.ids)
    (hcanonical : ∀ addr n, net.resolve addr = some n ↔ addr = (net.config n).gossipAddr)
    (hdisjoint : ∀ m n, net.ids m ≠ (net.config n).gossipAddr) {A B : ι}
    (hseeds : net.ids A ∈ seedAddrs (net.config B).seedPeers →
      (net.config B).gossipAddr ∈ seedAddrs (net.config A).seedPeers →
      (net.config A).gossipAddr ∈ seedAddrs (net.config B).seedPeers)
    {as : List (Action ι)} (hstable : ∀ n, Action.restart n ∉ as)
    (hrun : Machine.run (step net) (init net) as = some c) {p : String} {info : PeerInfo}
    (hinfo : (c.nodes A).peers.lookup p = some info)
    (haddr : info.gossipAddr = (net.config B).gossipAddr) (hcount : 0 < info.exchangeCount) :
    ∃ q info', (c.nodes B).peers.lookup q = some info'
      ∧ info'.gossipAddr = (net.config A).gossipAddr := by
  have h := run_acquainted hstable hrun
  obtain ⟨_, registry, hsim⟩ := run_simulates (hstable A) hrun
  obtain ⟨_, registry', hsim'⟩ := run_simulates (hstable B) hrun
  have hself (n : ι) : net.resolve (net.config n).gossipAddr = some n :=
    (hcanonical _ n).mpr rfl
  obtain ⟨hseed, rfl⟩ | ⟨x, ex, hex, hresolve, _, hfrom⟩ := h.addr_cases hsim hinfo
  · obtain ⟨x, ex, hex, rfl, hpeerId, hacked⟩ | ⟨x, ex, hex, _, hfromId⟩ :=
      h.counted A _ info hinfo hcount
    · -- the acknowledged push went to `B`, which registered `A`
      have hpeerAddr : ex.peerAddr = (net.config B).gossipAddr := by
        have hcovers := h.sender x ex hex
        rw [hpeerId] at hcovers
        rw [← haddr]
        exact hcovers.addr_eq ⟨info, hinfo, rfl, Nat.zero_le _⟩
      obtain ⟨info', hinfo'⟩ := h.known_of_acked hex hacked (hpeerAddr ▸ hself B)
      obtain ⟨hseed', _⟩ | ⟨_, ex', _, _, hid, hfrom⟩ := h.addr_cases hsim' hinfo'
      · have hknown := hseeds hseed' (haddr ▸ hseed)
        obtain ⟨info', hinfo', haddr', _⟩ := (Registry.run_tracked hsim'.run).seeded _ hknown
        rw [hsim'.peers] at hinfo'
        exact ⟨_, info', hinfo', haddr'⟩
      · rw [← hids hid] at hfrom
        exact ⟨_, info', hinfo', hfrom⟩
    · rw [(h.named x ex hex).1, haddr] at hfromId
      exact absurd hfromId (hdisjoint _ _)
  · -- the message came from `B`, which had an entry to send it through
    have hsender : ex.sender = B := by
      have hB := hself B
      rw [← haddr, hfrom, hself, Option.some.injEq] at hB
      exact hB
    obtain ⟨info', hinfo', haddr', _⟩ := h.sender x ex hex
    rw [hsender] at hinfo'
    exact ⟨_, info', hinfo', haddr'.trans ((hcanonical _ A).mp hresolve)⟩

/-- The steps of an introduction that nobody interrupts. -/
def introduced : List (Action Bool) :=
  Action.roundAlone false [("10.0.0.2:7071", PeerInfo.new "10.0.0.2:7071")] [] 0 true 0 2

theorem twoNodes_gossipAddr (n : Bool) :
    (twoNodes.config n).gossipAddr = if n then "10.0.0.2:7071" else "10.0.0.1:7071" := by
  cases n <;> decide +kernel

theorem discovery_mutual_introduced :
    ∃ c q info, Machine.run (step twoNodes) (init twoNodes) introduced = some c
      ∧ (c.nodes true).peers.lookup q = some info ∧ info.gossipAddr = "10.0.0.1:7071" := by
  have hrun : (Machine.run (step twoNodes) (init twoNodes) introduced).any fun c =>
      (c.nodes false).peers.lookup "10.0.0.2:7071" = some ⟨"10.0.0.2:7071", 0, 1⟩ := by
    decide +kernel
  obtain ⟨c, hrun, hcounted⟩ := Machine.exists_of_any_run hrun
  have hcanonical (addr : String) (n : Bool) :
      twoNodes.resolve addr = some n ↔ addr = (twoNodes.config n).gossipAddr := by
    rw [twoNodes_gossipAddr]
    cases n
    · simp [twoNodes]
    · simp only [twoNodes]
      grind
  have hdisjoint (m n : Bool) : twoNodes.ids m ≠ (twoNodes.config n).gossipAddr := by
    rw [twoNodes_gossipAddr]
    cases m <;> cases n <;> simp [Network.ids, twoNodes]
  obtain ⟨q, info, hinfo, haddr⟩ := discovery_mutual (A := false) (B := true)
    twoNodes_ids_injective hcanonical hdisjoint (by simp [twoNodes, seedAddrs]) (by decide) hrun
    (of_decide_eq_true hcounted) (twoNodes_gossipAddr true).symm (by decide)
  exact ⟨c, q, info, hrun, hinfo, haddr.trans (twoNodes_gossipAddr false)⟩

/-- The first node's id is its former address, which the second still has for a seed. -/
def movedNode : Network Bool where
  config := fun n =>
    if n then { nodeId := "node-b", host := "10.0.0.2", gossipPort := 7071,
                seedPeers := ["10.0.0.9:7071"], gossipFanout := 1 }
    else { nodeId := "10.0.0.9:7071", host := "10.0.0.1", gossipPort := 7071,
           seedPeers := ["10.0.0.2:7071"], gossipFanout := 1 }
  resolve := fun addr =>
    if addr = "10.0.0.1:7071" then some false
    else if addr = "10.0.0.2:7071" then some true
    else none

theorem movedNode_gossipAddr (n : Bool) :
    (movedNode.config n).gossipAddr = if n then "10.0.0.2:7071" else "10.0.0.1:7071" := by
  cases n <;> decide +kernel

theorem discovery_not_mutual :
    Function.Injective movedNode.ids
      ∧ (∀ addr n, movedNode.resolve addr = some n ↔ addr = (movedNode.config n).gossipAddr)
      ∧ (∀ m n, movedNode.ids m ≠ (movedNode.config n).gossipAddr)
      ∧ (∀ n, Action.restart n ∉ introduced)
      ∧ ∃ c, Machine.run (step movedNode) (init movedNode) introduced = some c
          ∧ (c.nodes false).peers.lookup "10.0.0.2:7071" = some ⟨"10.0.0.2:7071", 0, 1⟩
          ∧ (movedNode.config true).gossipAddr = "10.0.0.2:7071"
          ∧ ¬ ∃ q info, (c.nodes true).peers.lookup q = some info
              ∧ info.gossipAddr = (movedNode.config false).gossipAddr := by
  have hrun : (Machine.run (step movedNode) (init movedNode) introduced).any fun c =>
      (c.nodes false).peers.lookup "10.0.0.2:7071" = some ⟨"10.0.0.2:7071", 0, 1⟩
        ∧ ∀ entry ∈ (c.nodes true).peers.entries, entry.2.gossipAddr ≠ "10.0.0.1:7071" := by
    decide +kernel
  obtain ⟨c, hrun, hc⟩ := Machine.exists_of_any_run hrun
  obtain ⟨hcounted, hunknown⟩ := of_decide_eq_true hc
  refine ⟨?_, ?_, ?_, by decide, c, hrun, hcounted, movedNode_gossipAddr true, ?_⟩
  · intro m n
    cases m <;> cases n <;> simp [Network.ids, movedNode]
  · intro addr n
    rw [movedNode_gossipAddr]
    cases n
    · simp [movedNode]
    · simp only [movedNode]
      grind
  · intro m n
    rw [movedNode_gossipAddr]
    cases m <;> cases n <;> simp [Network.ids, movedNode]
  · rintro ⟨q, info, hinfo, haddr⟩
    rw [movedNode_gossipAddr] at haddr
    exact hunknown ⟨q, info⟩ (AList.mem_lookup_iff.mp hinfo) haddr

end Cluster

end StateSync
