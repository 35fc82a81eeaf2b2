import StateSync.Proof.ClusterSteps

/-!
# What every run of the cluster keeps

The bookkeeping of the protocol, over all runs, restarts included: a push stands for the greatest
timestamp it carries, an unfinished send or a copy in a running round has an entry of the peer table
behind it, and a receiver that has not registered the sender yet is merging the message's own delta.
-/

namespace StateSync

open Register

/-! ### Peer tables only grow -/

/-- A later state of the same entry. -/
structure PeerInfo.Later (info info' : PeerInfo) : Prop where
  gossipAddr : info'.gossipAddr = info.gossipAddr
  lastSyncTs : info.lastSyncTs ≤ info'.lastSyncTs
  exchangeCount : info.exchangeCount ≤ info'.exchangeCount

theorem PeerInfo.Later.refl (info : PeerInfo) : info.Later info := ⟨rfl, le_rfl, le_rfl⟩

theorem PeerInfo.later_markSeen (info : PeerInfo) : info.Later info.markSeen :=
  ⟨rfl, le_rfl, Nat.le_succ _⟩

theorem PeerInfo.later_recordExchange (ts : Nat) (info : PeerInfo) :
    info.Later (recordExchange ts info) :=
  ⟨rfl, le_max_left _ _, Nat.le_succ _⟩

def PeerTable.Later (peers peers' : PeerTable) : Prop :=
  ∀ p info, peers.lookup p = some info → ∃ info', peers'.lookup p = some info' ∧ info.Later info'

theorem PeerTable.Later.refl (peers : PeerTable) : peers.Later peers :=
  fun _ info hinfo => ⟨info, hinfo, PeerInfo.Later.refl info⟩

theorem PeerTable.later_upsert (peers : PeerTable) (key addr : String) {f : PeerInfo → PeerInfo}
    (hf : ∀ info : PeerInfo, info.Later (f info)) : peers.Later (peers.upsert key addr f) := by
  intro p info hinfo
  by_cases hp : p = key
  · subst hp
    refine ⟨f info, ?_, hf info⟩
    rw [lookup_upsert_self, hinfo, Option.getD_some]
  · exact ⟨info, by rw [lookup_upsert_of_ne hp, hinfo], PeerInfo.Later.refl info⟩

/-- The table has an entry under this key, for this address, with at least this watermark. -/
def PeerTable.Covers (peers : PeerTable) (p addr : String) (ts : Nat) : Prop :=
  ∃ info, peers.lookup p = some info ∧ info.gossipAddr = addr ∧ ts ≤ info.lastSyncTs

theorem PeerTable.Covers.later {peers peers' : PeerTable} {p addr : String} {ts : Nat}
    (h : peers.Covers p addr ts) (hlater : peers.Later peers') : peers'.Covers p addr ts := by
  obtain ⟨info, hinfo, haddr, hts⟩ := h
  obtain ⟨info', hinfo', hsame⟩ := hlater p info hinfo
  exact ⟨info', hinfo', hsame.gossipAddr.trans haddr, hts.trans hsame.lastSyncTs⟩

theorem PeerTable.Covers.addr_eq {peers : PeerTable} {p addr addr' : String} {ts ts' : Nat}
    (h : peers.Covers p addr ts) (h' : peers.Covers p addr' ts') : addr = addr' := by
  obtain ⟨info, hinfo, haddr, _⟩ := h
  obtain ⟨info', hinfo', haddr', _⟩ := h'
  obtain rfl : info = info' := Option.some.inj (hinfo.symm.trans hinfo')
  rw [← haddr, ← haddr']

theorem LiveStore.step_origin {live live' : LiveStore} {sa : StoreAction}
    (hstep : live.step sa = some live') {i : Nat} {task : Task}
    (htask : live.tasks[i]? = some task) :
    ∃ task', live'.tasks[i]? = some task' ∧ task'.origin = task.origin := by
  obtain ⟨hlt, _⟩ := List.getElem?_eq_some_iff.mp htask
  obtain ⟨t, rfl, _⟩ | ⟨j, t, t', sent, _, ht, _, htasks, _, hadvance⟩ := step_cases hstep
  · exact ⟨task, by rw [List.getElem?_append_left hlt, htask], rfl⟩
  · rw [htasks]
    by_cases hji : j = i
    · subst hji
      obtain rfl : task = t := Option.some.inj (htask.symm.trans ht)
      exact ⟨t', List.getElem?_set_self hlt, (Task.advance_spec hadvance).origin⟩
    · exact ⟨task, by rw [List.getElem?_set_ne hji, htask], rfl⟩

namespace Cluster

variable {ι : Type} {net : Network ι} {c c' : Cluster ι}

def Merging (c : Cluster ι) (r : ι) (i : Nat) (delta : StateDelta) : Prop :=
  ∃ task, (c.nodes r).live.tasks[i]? = some task ∧ task.origin = .merge delta .called

/-- What every reachable state satisfies. A copy of a peer entry in a running round is no newer than
the entry it was made of. -/
structure WellFormed (net : Network ι) (c : Cluster ι) : Prop where
  consistent : ∀ n, (c.nodes n).live.Consistent
  maxSentTs : ∀ (x : Nat) ex, c.exchanges[x]? = some ex →
    ex.maxSentTs = StateSync.maxSentTs ex.msg.deltas
  copies : ∀ n, ∀ entry ∈ (c.nodes n).round.copies,
    (c.nodes n).peers.Covers entry.1 entry.2.gossipAddr entry.2.lastSyncTs
  waiting : ∀ (x : Nat) ex, c.exchanges[x]? = some ex → ex.send = .waiting →
    (c.nodes ex.sender).peers.Covers ex.peerId ex.peerAddr 0
  merging : ∀ (x : Nat) ex, c.exchanges[x]? = some ex → ∀ r i, ex.recv = .merging r i →
    net.resolve ex.peerAddr = some r ∧ c.Merging r i ex.msg.deltas

theorem wellFormed_init (net : Network ι) : WellFormed net (init net) where
  consistent := fun _ => LiveStore.consistent_of_tasks_nil rfl rfl
  maxSentTs := by simp [init]
  copies := fun _ _ hentry => absurd hentry List.not_mem_nil
  waiting := by simp [init]
  merging := by simp [init]

theorem NodeSteps.later {a : Action ι} {m : ι} {node : Node} (h : NodeSteps net c a m node)
    (hm : a ≠ .restart m) : (c.nodes m).peers.Later node.peers := by
  cases h with
  | same => exact PeerTable.Later.refl _
  | store hact hlive => exact PeerTable.Later.refl _
  | accept hact hex hlive => exact PeerTable.Later.refl _
  | round hcopies => exact PeerTable.Later.refl _
  | register hact hex => exact PeerTable.later_upsert _ _ _ PeerInfo.later_markSeen
  | recvAck hact hex hsender hsend hrecv =>
      exact PeerTable.later_upsert _ _ _ (PeerInfo.later_recordExchange _)
  | restart hact => exact absurd hact hm

theorem NodeSteps.covers {a : Action ι} {m : ι} {node : Node} (h : NodeSteps net c a m node)
    (hm : a ≠ .restart m) {p addr : String} {ts : Nat} (hp : (c.nodes m).peers.Covers p addr ts) :
    node.peers.Covers p addr ts :=
  hp.later (h.later hm)

theorem NodeSteps.copies {a : Action ι} {m : ι} {node : Node} (h : NodeSteps net c a m node)
    (hcopies : ∀ entry ∈ (c.nodes m).round.copies,
      (c.nodes m).peers.Covers entry.1 entry.2.gossipAddr entry.2.lastSyncTs) :
    ∀ entry ∈ node.round.copies,
      node.peers.Covers entry.1 entry.2.gossipAddr entry.2.lastSyncTs := by
  intro entry hentry
  cases h with
  | same => exact hcopies entry hentry
  | store hact hlive => exact hcopies entry hentry
  | accept hact hex hlive => exact hcopies entry hentry
  | round hround =>
      obtain hold | hnew := hround entry hentry
      · exact hcopies entry hold
      · exact ⟨entry.2, hnew, rfl, le_rfl⟩
  | register hact hex =>
      exact (hcopies entry hentry).later (PeerTable.later_upsert _ _ _ PeerInfo.later_markSeen)
  | recvAck hact hex hsender hsend hrecv =>
      exact (hcopies entry hentry).later
        (PeerTable.later_upsert _ _ _ (PeerInfo.later_recordExchange _))
  | restart hact => exact absurd hentry List.not_mem_nil

theorem NodeSteps.consistent {a : Action ι} {m : ι} {node : Node} (h : NodeSteps net c a m node)
    (hconsistent : (c.nodes m).live.Consistent) : node.live.Consistent := by
  cases h with
  | store hact hlive => exact hconsistent.step hlive
  | accept hact hex hlive => exact hconsistent.step hlive
  | restart hact => exact LiveStore.consistent_of_tasks_nil rfl rfl
  | same => exact hconsistent
  | round hcopies => exact hconsistent
  | register hact hex => exact hconsistent
  | recvAck hact hex hsender hsend hrecv => exact hconsistent

theorem NodeSteps.mem_tasks {a : Action ι} {m : ι} {node : Node} (h : NodeSteps net c a m node)
    {task : Task} (htask : task ∈ node.live.tasks) :
    (∃ old ∈ (c.nodes m).live.tasks, task.origin = old.origin)
      ∨ (∃ key value now, a = .callSet m key value now
          ∧ task.origin = .set key (LwwValue.new value (c.nodes m).live.nodeId now) .drawn)
      ∨ ∃ ex ∈ c.exchanges, task.origin = .merge ex.msg.deltas .called := by
  cases h with
  | @store sa live hact hlive =>
      cases a with
      | callSet n key value now =>
          obtain ⟨rfl, rfl⟩ : n = m ∧ .callSet key value now = sa := by
            simpa [Action.storeAction] using hact
          obtain hold | ⟨key', value', now', heq, horigin⟩ | ⟨delta, heq, _⟩ :=
            LiveStore.mem_tasks_step hlive htask
          · exact Or.inl hold
          · obtain ⟨rfl, rfl, rfl⟩ := by simpa using heq
            exact Or.inr (Or.inl ⟨key, value, now, rfl, horigin⟩)
          · simp at heq
      | advance n i =>
          obtain ⟨rfl, rfl⟩ : n = m ∧ .advance i = sa := by simpa [Action.storeAction] using hact
          obtain hold | ⟨_, _, _, heq, _⟩ | ⟨delta, heq, _⟩ := LiveStore.mem_tasks_step hlive htask
          · exact Or.inl hold
          · simp at heq
          · simp at heq
      | _ => simp [Action.storeAction] at hact
  | @accept x ex live hact hex hlive =>
      obtain hold | ⟨_, _, _, heq, _⟩ | ⟨delta, heq, horigin⟩ :=
        LiveStore.mem_tasks_step hlive htask
      · exact Or.inl hold
      · simp at heq
      · obtain rfl := by simpa using heq
        exact Or.inr (Or.inr ⟨ex, List.mem_of_getElem? hex, horigin⟩)
  | restart hact => exact absurd htask List.not_mem_nil
  | same => exact Or.inl ⟨task, htask, rfl⟩
  | round hcopies => exact Or.inl ⟨task, htask, rfl⟩
  | register hact hex => exact Or.inl ⟨task, htask, rfl⟩
  | recvAck hact hex hsender hsend hrecv => exact Or.inl ⟨task, htask, rfl⟩

theorem NodeSteps.get_cases {a : Action ι} {m : ι} {node : Node} (h : NodeSteps net c a m node)
    {k : String} {v : LwwValue} (hv : node.live.get k = some v) :
    c.get m k = some v ∨ ∃ i task, a = .advance m i ∧ (c.nodes m).live.tasks[i]? = some task
      ∧ (k, v) ∈ task.offering ∧ (c.nodes m).live.state.stampAt k < v.stamp := by
  cases h with
  | same => exact Or.inl hv
  | store hact hlive =>
      obtain hold | ⟨i, task, rfl, hoffers⟩ := LiveStore.get_step hlive hv
      · exact Or.inl hold
      · exact Or.inr ⟨i, task, Action.eq_advance hact, hoffers⟩
  | accept hact hex hlive =>
      obtain hold | ⟨i, task, heq, _⟩ := LiveStore.get_step hlive hv
      · exact Or.inl hold
      · simp at heq
  | round hcopies => exact Or.inl hv
  | register hact hex => exact Or.inl hv
  | recvAck hact hex hsender hsend hrecv => exact Or.inl hv
  | restart hact => simp [Node.new, LiveStore.new, StateStore.new, StateStore.get] at hv

/-- Two states of one exchange: what the push fixed is the same. -/
structure SamePush (ex ex' : Exchange ι) : Prop where
  sender : ex'.sender = ex.sender
  peerId : ex'.peerId = ex.peerId
  peerAddr : ex'.peerAddr = ex.peerAddr
  msg : ex'.msg = ex.msg
  maxSentTs : ex'.maxSentTs = ex.maxSentTs
  waiting : ex'.send = .waiting → ex.send = .waiting

theorem SamePush.refl (ex : Exchange ι) : SamePush ex ex := ⟨rfl, rfl, rfl, rfl, rfl, id⟩

theorem SamePush.trans {ex ex' ex'' : Exchange ι} (h : SamePush ex ex') (h' : SamePush ex' ex'') :
    SamePush ex ex'' where
  sender := h'.sender.trans h.sender
  peerId := h'.peerId.trans h.peerId
  peerAddr := h'.peerAddr.trans h.peerAddr
  msg := h'.msg.trans h.msg
  maxSentTs := h'.maxSentTs.trans h.maxSentTs
  waiting := fun hsend => h.waiting (h'.waiting hsend)

theorem ExchangeSteps.samePush {ex ex' : Exchange ι} (h : ExchangeSteps net c c' ex ex') :
    SamePush ex ex' := by
  cases h with
  | recvAck hsend hrecv => exact ⟨rfl, rfl, rfl, rfl, rfl, fun _ => hsend⟩
  | failSend hsend => exact ⟨rfl, rfl, rfl, rfl, rfl, fun _ => hsend⟩
  | _ => exact ⟨rfl, rfl, rfl, rfl, rfl, id⟩

variable [DecidableEq ι]

theorem samePush_afterRestart (n : ι) (ex : Exchange ι) : SamePush ex (ex.afterRestart n) := by
  refine ⟨rfl, rfl, rfl, rfl, rfl, ?_⟩
  intro hsend
  simp only [Exchange.afterRestart] at hsend
  split at hsend
  · simp at hsend
  · exact hsend

theorem Merging.step {a : Action ι} (hsteps : Steps net c a c') {r : ι} (hr : a ≠ .restart r)
    {i : Nat} {delta : StateDelta} (h : c.Merging r i delta) : c'.Merging r i delta := by
  obtain ⟨task, htask, horigin⟩ := h
  obtain hlive | ⟨sa, hlive, _⟩ := (hsteps.node r).live hr
  · exact ⟨task, by rw [hlive, htask], horigin⟩
  · obtain ⟨task', htask', horigin'⟩ := LiveStore.step_origin hlive htask
    exact ⟨task', htask', horigin'.trans horigin⟩

theorem Steps.samePush {a : Action ι} (hsteps : Steps net c a c') {x : Nat} {ex' : Exchange ι}
    (hx : c'.exchanges[x]? = some ex') :
    (∃ ex, c.exchanges[x]? = some ex ∧ SamePush ex ex'
        ∧ (ex'.send = .waiting → a ≠ .restart ex.sender))
      ∨ (x = c.exchanges.length ∧ Pushed c ex' ∧ (∀ n, a ≠ .restart n)
        ∧ ∀ n, (c'.nodes n).live = (c.nodes n).live) := by
  by_cases ha : ∃ n, a = .restart n
  · obtain ⟨n, rfl⟩ := ha
    obtain ⟨ex, hex, rfl⟩ := hsteps.exchange_of_restart hx
    refine Or.inl ⟨ex, hex, samePush_afterRestart n ex, ?_⟩
    intro hsend hn
    obtain rfl : n = ex.sender := by simpa using hn
    have hwaiting := (samePush_afterRestart ex.sender ex).waiting hsend
    simp [Exchange.afterRestart, hwaiting] at hsend
  · have ha : ∀ n, a ≠ .restart n := fun n hn => ha ⟨n, hn⟩
    obtain ⟨ex, hex, hmove⟩ | ⟨hlength, hpushed, hlive⟩ := hsteps.exchange ha hx
    · exact Or.inl ⟨ex, hex, hmove.samePush, fun _ => ha _⟩
    · exact Or.inr ⟨hlength, hpushed, ha, hlive⟩

theorem Steps.length_le {a : Action ι} (hsteps : Steps net c a c') :
    c.exchanges.length ≤ c'.exchanges.length := by
  cases hsteps <;> simp [setNode, setExchange]

theorem WellFormed.step_merging (h : WellFormed net c) {a : Action ι} (hsteps : Steps net c a c')
    {x : Nat} {ex' : Exchange ι} (hx : c'.exchanges[x]? = some ex') {r : ι} {i : Nat}
    (hrecv : ex'.recv = .merging r i) :
    net.resolve ex'.peerAddr = some r ∧ c'.Merging r i ex'.msg.deltas := by
  by_cases ha : ∃ n, a = .restart n
  · obtain ⟨n, rfl⟩ := ha
    obtain ⟨ex, hex, rfl⟩ := hsteps.exchange_of_restart hx
    obtain ⟨hold, hrn⟩ : ex.recv = .merging r i ∧ r ≠ n := by
      simp only [Exchange.afterRestart] at hrecv
      grind
    obtain ⟨hresolve, hmerging⟩ := h.merging x ex hex r i hold
    exact ⟨hresolve, hmerging.step hsteps (by simpa using Ne.symm hrn)⟩
  · have ha : ∀ n, a ≠ .restart n := fun n hn => ha ⟨n, hn⟩
    obtain ⟨ex, hex, hmove⟩ | ⟨_, hpushed, _⟩ := hsteps.exchange ha hx
    · have hold (hrecv : ex.recv = .merging r i) :
          net.resolve ex.peerAddr = some r ∧ c'.Merging r i ex.msg.deltas := by
        obtain ⟨hresolve, hmerging⟩ := h.merging x ex hex r i hrecv
        exact ⟨hresolve, hmerging.step hsteps (ha r)⟩
      cases hmove with
      | same => exact hold hrecv
      | @accept r' task hr hinFlight htask =>
          obtain ⟨rfl, rfl⟩ : r' = r ∧ task = i := by simpa using hrecv
          exact ⟨hr, _, htask, rfl⟩
      | register hmerging htask => simp at hrecv
      | writeAck hregistered => simp at hrecv
      | recvAck hsend hacked => simp at hrecv
      | failSend hsend => exact hold hrecv
      | lose => simp at hrecv
    · simp [hpushed.recv] at hrecv

theorem WellFormed.step (h : WellFormed net c) {a : Action ι} (hstep : c.step net a = some c') :
    WellFormed net c' := by
  have hsteps := step_spec hstep
  refine
    { consistent := fun n => (hsteps.node n).consistent (h.consistent n)
      copies := fun n => (hsteps.node n).copies (h.copies n)
      merging := fun x ex' hx r i hrecv => h.step_merging hsteps hx hrecv
      maxSentTs := ?_
      waiting := ?_ }
  · intro x ex' hx
    obtain ⟨ex, hex, hsame, _⟩ | ⟨_, hpushed, _⟩ := hsteps.samePush hx
    · rw [hsame.maxSentTs, hsame.msg]
      exact h.maxSentTs x ex hex
    · exact hpushed.maxSentTs
  · intro x ex' hx hsend
    obtain ⟨ex, hex, hsame, hsender⟩ | ⟨_, hpushed, ha, _⟩ := hsteps.samePush hx
    · rw [hsame.sender, hsame.peerId, hsame.peerAddr]
      exact (hsteps.node ex.sender).covers (hsender hsend)
        (h.waiting x ex hex (hsame.waiting hsend))
    · obtain ⟨info, hcopy, haddr, _⟩ := hpushed.copy
      obtain ⟨current, hcurrent, hcurrentAddr, _⟩ := h.copies ex'.sender _ hcopy
      rw [haddr]
      exact (hsteps.node ex'.sender).covers (ha _) ⟨current, hcurrent, hcurrentAddr, Nat.zero_le _⟩

theorem run_wellFormed {as : List (Action ι)}
    (hrun : Machine.run (step net) (init net) as = some c) : WellFormed net c :=
  Machine.run_invariant (fun _ _ _ h hstep => h.step hstep) (wellFormed_init net) hrun

theorem guarded_stable {as : List (Action ι)} (hstable : ∀ n, Action.restart n ∉ as)
    (c : Cluster ι) : Machine.Guarded (step net) (fun _ a => ∀ n, a ≠ .restart n) c as := by
  refine Machine.guarded_of_forall ?_ c
  rintro a ha _ n rfl
  exact hstable n ha

theorem guarded_stable_pair {A B : ι} {as : List (Action ι)} (hA : Action.restart A ∉ as)
    (hB : Action.restart B ∉ as) (c : Cluster ι) :
    Machine.Guarded (step net) (fun _ a => a ≠ .restart A ∧ a ≠ .restart B) c as := by
  refine Machine.guarded_of_forall ?_ c
  intro a ha _
  exact ⟨fun h => hA (h ▸ ha), fun h => hB (h ▸ ha)⟩

theorem run_behind {as : List (Action ι)} (hstable : ∀ n, Action.restart n ∉ as)
    (hrun : Machine.run (step net) c as = some c') (n : ι) (k : String) :
    Behind LwwValue.stamp (c.get n k) (c'.get n k) := by
  refine Machine.run_invariant_of_guarded
    (P := fun t : Cluster ι => Behind LwwValue.stamp (c.get n k) (t.get n k))
    ?_ (Behind.refl _) (guarded_stable hstable c) hrun
  intro s a t h ha hstep
  exact h.trans ((step_spec hstep).behind (ha n) k)

end Cluster

end StateSync
