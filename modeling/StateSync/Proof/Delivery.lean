import StateSync.Proof.Refinement

/-!
# Acknowledged means delivered

The receiver registers the sender and writes its acknowledgement only after `merge_delta` has
returned, so an acknowledgement on its way says that the message was merged, and a store never goes
backwards. A watermark is moved by acknowledgements alone, to the greatest timestamp of what they
acknowledge, whatever order they arrive in.
-/

namespace StateSync

open Register

variable {ι : Type}

/-- The receiver has merged the message, or the sender knows that it has. -/
def Exchange.Handled (ex : Exchange ι) : Prop :=
  ex.send = .acked ∨ (∃ r merged, ex.recv = .registered r merged) ∨ ∃ ack, ex.recv = .acked ack

instance (ex : Exchange ι) : Decidable ex.Handled :=
  match hrecv : ex.recv with
  | .registered _ _ | .acked _ => isTrue (by simp [Exchange.Handled, hrecv])
  | .inFlight | .merging _ _ | .closed =>
      decidable_of_iff (ex.send = .acked) (by simp [Exchange.Handled, hrecv])

namespace Cluster

variable {net : Network ι} {c c' : Cluster ι}

/-- Node `B` holds something at least as new as every entry of the messages it handled, of those
pushed after the first `N`. -/
def Delivered (net : Network ι) (N : Nat) (B : ι) (c : Cluster ι) : Prop :=
  ∀ x ex, N ≤ x → c.exchanges[x]? = some ex → net.resolve ex.peerAddr = some B → ex.Handled →
    ∀ k v, (k, v) ∈ ex.msg.deltas → c.Dominates B k v

theorem ExchangeSteps.handled {ex ex' : Exchange ι} (h : ExchangeSteps net c c' ex ex')
    (hhandled : ex'.Handled) :
    ex.Handled ∨ ∃ r i delta updated, ex.recv = .merging r i
      ∧ (c.nodes r).live.tasks[i]? = some (.merge delta (.returned updated)) := by
  cases h with
  | same => exact Or.inl hhandled
  | accept hr hrecv htask => exact Or.inl (Or.inl (by simpa [Exchange.Handled] using hhandled))
  | register hrecv htask => exact Or.inr ⟨_, _, _, _, hrecv, htask⟩
  | writeAck hrecv => exact Or.inl (Or.inr (Or.inl ⟨_, _, hrecv⟩))
  | recvAck hsend hrecv => exact Or.inl (Or.inr (Or.inr ⟨_, hrecv⟩))
  | failSend hsend => exact Or.inl (Or.inr (by simpa [Exchange.Handled] using hhandled))
  | lose => exact Or.inl (Or.inl (by simpa [Exchange.Handled] using hhandled))

theorem WellFormed.dominates_of_returned (h : WellFormed net c) {x : Nat} {ex : Exchange ι}
    (hex : c.exchanges[x]? = some ex) {r : ι} {i : Nat} (hrecv : ex.recv = .merging r i)
    {delta : StateDelta} {updated : List String}
    (htask : (c.nodes r).live.tasks[i]? = some (.merge delta (.returned updated)))
    {k : String} {v : LwwValue} (hv : (k, v) ∈ ex.msg.deltas) : c.Dominates r k v := by
  obtain ⟨_, task, htask', horigin⟩ := h.merging x ex hex r i hrecv
  rw [htask, Option.some.injEq] at htask'
  subst htask'
  obtain rfl : delta = ex.msg.deltas := by simpa [Task.origin] using horigin
  exact (h.consistent r).offered _ (List.mem_of_getElem? htask) k v hv

variable [DecidableEq ι]

theorem handled_afterRestart {n : ι} {ex : Exchange ι} (h : (ex.afterRestart n).Handled) :
    ex.Handled := by
  obtain hsend | ⟨r, merged, hrecv⟩ | ⟨ack, hrecv⟩ := h
  · simp only [Exchange.afterRestart] at hsend
    split at hsend
    · simp at hsend
    · exact Or.inl hsend
  · simp only [Exchange.afterRestart] at hrecv
    split at hrecv
    · grind
    · grind [Exchange.Handled]
    · exact Or.inr (Or.inl ⟨r, merged, hrecv⟩)
  · simp only [Exchange.afterRestart] at hrecv
    split at hrecv
    · grind
    · grind
    · exact Or.inr (Or.inr ⟨ack, hrecv⟩)

/-- A message that node `B` has handled was handled before the step, or the step completes it. -/
theorem Steps.handled_or_dominates (hwf : WellFormed net c) {a : Action ι}
    (hsteps : Steps net c a c') {B : ι} {x : Nat} {ex' : Exchange ι}
    (hx : c'.exchanges[x]? = some ex') (hresolve : net.resolve ex'.peerAddr = some B)
    (hhandled : ex'.Handled) :
    (∃ ex, c.exchanges[x]? = some ex ∧ SamePush ex ex' ∧ ex.Handled)
      ∨ ∀ k v, (k, v) ∈ ex'.msg.deltas → c.Dominates B k v := by
  by_cases ha : ∃ n, a = .restart n
  · obtain ⟨n, rfl⟩ := ha
    obtain ⟨ex, hex, rfl⟩ := hsteps.exchange_of_restart hx
    exact Or.inl ⟨ex, hex, samePush_afterRestart n ex, handled_afterRestart hhandled⟩
  · obtain ⟨ex, hex, hmove⟩ | ⟨_, hpushed, _⟩ := hsteps.exchange (fun n hn => ha ⟨n, hn⟩) hx
    · obtain hold | ⟨r, i, delta, updated, hrecv, htask⟩ := hmove.handled hhandled
      · exact Or.inl ⟨ex, hex, hmove.samePush, hold⟩
      · right
        intro k v hv
        rw [hmove.samePush.peerAddr] at hresolve
        rw [hmove.samePush.msg] at hv
        obtain ⟨hr, _⟩ := hwf.merging x ex hex r i hrecv
        obtain rfl : r = B := Option.some.inj (hr.symm.trans hresolve)
        exact hwf.dominates_of_returned hex hrecv htask hv
    · simp [Exchange.Handled, hpushed.send, hpushed.recv] at hhandled

theorem Delivered.step {N : Nat} {B : ι} (hwf : WellFormed net c) (h : Delivered net N B c)
    {a : Action ι} (hsteps : Steps net c a c') (hB : a ≠ .restart B) : Delivered net N B c' := by
  intro x ex' hN hx hresolve hhandled k v hv
  apply hsteps.dominates hB
  obtain ⟨ex, hex, hsame, hold⟩ | hnew := hsteps.handled_or_dominates hwf hx hresolve hhandled
  · rw [hsame.peerAddr] at hresolve
    rw [hsame.msg] at hv
    exact h x ex hN hex hresolve hold k v hv
  · exact hnew k v hv

/-! ### The watermark -/

end Cluster

def PeerTable.watermark (peers : PeerTable) (p : String) : Nat :=
  ((peers.lookup p).map PeerInfo.lastSyncTs).getD 0

theorem PeerTable.watermark_upsert (peers : PeerTable) (key addr p : String)
    (f : PeerInfo → PeerInfo) :
    (peers.upsert key addr f).watermark p
      = if p = key then (f ((peers.lookup p).getD (PeerInfo.new addr))).lastSyncTs
        else peers.watermark p := by
  unfold watermark
  by_cases hp : p = key
  · subst hp
    simp [lookup_upsert_self]
  · simp [lookup_upsert_of_ne hp, hp]

theorem PeerTable.watermark_markSeen (peers : PeerTable) (key addr p : String) :
    (peers.upsert key addr PeerInfo.markSeen).watermark p = peers.watermark p := by
  rw [watermark_upsert]
  split
  · unfold watermark
    cases peers.lookup p <;> rfl
  · rfl

theorem PeerTable.watermark_recordExchange (peers : PeerTable) (key addr p : String) (ts : Nat) :
    (peers.upsert key addr (PeerInfo.recordExchange ts)).watermark p
      = if p = key then max (peers.watermark p) ts else peers.watermark p := by
  rw [watermark_upsert]
  split
  · unfold watermark
    cases peers.lookup p <;> rfl
  · rfl

/-- The delta of a push through entry `p` of node `A` whose acknowledgement `A` has processed. -/
def Exchange.ackedDelta [DecidableEq ι] (A : ι) (p : String) (ex : Exchange ι) : StateDelta :=
  if ex.sender = A ∧ ex.peerId = p ∧ ex.send = .acked then ex.msg.deltas else []

namespace Cluster

variable [DecidableEq ι] {net : Network ι} {c c' : Cluster ι}

def ackedDeltas (c : Cluster ι) (A : ι) (p : String) : StateDelta :=
  c.exchanges.flatMap (Exchange.ackedDelta A p)

/-- The watermark is what was acknowledged. -/
def WatermarkExact (c : Cluster ι) : Prop :=
  ∀ A p, (c.nodes A).peers.watermark p = maxSentTs (c.ackedDeltas A p)

theorem watermark_update {n : ι} {node : Node}
    (h : ∀ p, node.peers.watermark p = (c.nodes n).peers.watermark p) (A : ι) (p : String) :
    (Function.update c.nodes n node A).peers.watermark p = (c.nodes A).peers.watermark p := by
  by_cases hA : A = n
  · subst hA
    rw [Function.update_self, h]
  · rw [Function.update_of_ne hA]

theorem WatermarkExact.of_eq (h : WatermarkExact c)
    (hpeers : ∀ A p, (c'.nodes A).peers.watermark p = (c.nodes A).peers.watermark p)
    (hacked : ∀ A p, c'.ackedDeltas A p = c.ackedDeltas A p) : WatermarkExact c' := by
  intro A p
  rw [hpeers, hacked]
  exact h A p

theorem WatermarkExact.recvAck (hwf : WellFormed net c) (h : WatermarkExact c) {x : Nat}
    {ex : Exchange ι} (hex : c.exchanges[x]? = some ex) (hsend : ex.send = .waiting) :
    WatermarkExact ((c.setNode ex.sender { c.nodes ex.sender with
        peers := (c.nodes ex.sender).peers.upsert ex.peerId ex.peerAddr
          (PeerInfo.recordExchange ex.maxSentTs) }).setExchange x
      { ex with send := .acked, recv := .closed }) := by
  intro A p
  -- before the step the push was not acknowledged, so its slot held nothing
  have hslot : Exchange.ackedDelta A p ex = [] := by simp [Exchange.ackedDelta, hsend]
  have hmem := fun entry => Slots.mem_flatMap_set (g := Exchange.ackedDelta A p)
    (b := { ex with send := .acked, recv := .closed }) hex (by simp [hslot]) (e := entry)
  refine Eq.trans ?_ (maxSentTs_of_mem_iff hmem).symm
  change (Function.update c.nodes ex.sender _ A).peers.watermark p
    = max (maxSentTs (c.ackedDeltas A p)) _
  rw [← h A p]
  by_cases hA : A = ex.sender
  · subst hA
    rw [Function.update_self, PeerTable.watermark_recordExchange]
    by_cases hp : p = ex.peerId
    · subst hp
      simp [Exchange.ackedDelta, hwf.maxSentTs x ex hex]
    · simp [Exchange.ackedDelta, hp, Ne.symm hp, maxSentTs]
  · rw [Function.update_of_ne hA]
    simp [Exchange.ackedDelta, Ne.symm hA, maxSentTs]

theorem WatermarkExact.step (hwf : WellFormed net c) (h : WatermarkExact c) {a : Action ι}
    (hsteps : Steps net c a c') (ha : ∀ n, a ≠ .restart n) : WatermarkExact c' := by
  cases hsteps with
  | store hact hlive => exact h.of_eq (watermark_update fun p => rfl) fun A p => rfl
  | round hact hcopies => exact h.of_eq (watermark_update fun p => rfl) fun A p => rfl
  | send hcopy hcopies hdelta hfrom haddr hmsg =>
      refine h.of_eq (watermark_update fun p => rfl) fun A p => ?_
      simp [ackedDeltas, Exchange.ackedDelta]
  | accept hex hr hrecv hlive =>
      exact h.of_eq (watermark_update fun p => rfl) fun A p => Slots.flatMap_set hex rfl
  | register hex hrecv htask =>
      exact h.of_eq (watermark_update (PeerTable.watermark_markSeen _ _ _))
        fun A p => Slots.flatMap_set hex rfl
  | recvAck hex hsend hrecv => exact h.recvAck hwf hex hsend
  | writeAck hex hrecv => exact h.of_eq (fun A p => rfl) fun A p => Slots.flatMap_set hex rfl
  | failSend hex hsend =>
      refine h.of_eq (fun A p => rfl) fun A p => Slots.flatMap_set hex ?_
      simp [Exchange.ackedDelta, hsend]
  | lose hex => exact h.of_eq (fun A p => rfl) fun A p => Slots.flatMap_set hex rfl
  | @restart n => exact absurd rfl (ha n)

/-! ### Runs -/

theorem watermarkExact_init (net : Network ι) : WatermarkExact (init net) := by
  intro A p
  unfold PeerTable.watermark
  cases hinfo : ((init net).nodes A).peers.lookup p with
  | none => rfl
  | some info =>
      exact PeerTable.lastSyncTs_registerSeeds (by simp) hinfo

structure Tracks (net : Network ι) (c : Cluster ι) : Prop where
  wellFormed : WellFormed net c
  delivered : ∀ B, Delivered net 0 B c
  watermarkExact : WatermarkExact c

theorem run_tracks {as : List (Action ι)} (hstable : ∀ n, Action.restart n ∉ as)
    (hrun : Machine.run (step net) (init net) as = some c) : Tracks net c := by
  refine Machine.run_invariant_of_guarded ?_ ?_ (guarded_stable hstable (init net)) hrun
  · intro s a t h ha hstep
    have hsteps := step_spec hstep
    exact
      { wellFormed := h.wellFormed.step hstep
        delivered := fun B => (h.delivered B).step h.wellFormed hsteps (ha B)
        watermarkExact := h.watermarkExact.step h.wellFormed hsteps ha }
  · exact
      { wellFormed := wellFormed_init net
        delivered := fun B x ex _ hex => absurd hex (by simp [init])
        watermarkExact := watermarkExact_init net }

/-- **Acknowledged means delivered, for ever.** Once the sender has processed an acknowledgement,
the receiver holds each entry of that message or a newer one, in every later state; and a watermark
is exactly the greatest timestamp that was acknowledged through its entry. -/
theorem acked_delivered (hids : Function.Injective net.ids) {as : List (Action ι)}
    (hstable : ∀ n, Action.restart n ∉ as)
    (hrun : Machine.run (step net) (init net) as = some c) :
    (∀ ex ∈ c.exchanges, ex.send = .acked → ∀ B, net.resolve ex.peerAddr = some B →
      ∀ later d, (∀ n, Action.restart n ∉ later) → Machine.run (step net) c later = some d →
        ∀ k v, (k, v) ∈ ex.msg.deltas →
          ∃ w, d.get B k = some w ∧ (w = v ∨ v.stamp < w.stamp))
      ∧ ∀ A p info, (c.nodes A).peers.lookup p = some info →
          info.lastSyncTs = maxSentTs (c.ackedDeltas A p) := by
  have htracks := run_tracks hstable hrun
  constructor
  · intro ex hex hsend B hresolve later d hlater hd k v hv
    obtain ⟨x, hx⟩ := List.mem_iff_getElem?.mp hex
    have hdominates : c.Dominates B k v :=
      htracks.delivered B x ex (Nat.zero_le x) hx hresolve (Or.inl hsend) k v hv
    have hoccurs : c.replicas.Occurs k v := Or.inr (List.mem_flatMap.mpr ⟨ex, hex, hv⟩)
    have hwf := run_replicas_wellFormed hids hstable hrun
    have hbehind : Behind LwwValue.stamp (some v) (d.get B k) :=
      (hwf.behind_of_dominates hoccurs hdominates).trans (run_behind hlater hd B k)
    cases hw : d.get B k with
    | none =>
        rw [hw] at hbehind
        exact absurd hbehind.eq_none (by simp)
    | some w =>
        rw [hw] at hbehind
        refine ⟨w, rfl, ?_⟩
        obtain heq | hlt := hbehind
        · exact Or.inl (Option.some.inj heq).symm
        · exact Or.inr (WithBot.coe_lt_coe.mp hlt)
  · intro A p info hinfo
    rw [← htracks.watermarkExact A p]
    simp [PeerTable.watermark, hinfo]

def ackedWrite : List (Action Bool) :=
  Action.setAlone false "k" "x" 5 0
    ++ Action.roundAlone false [("10.0.0.2:7071", PeerInfo.new "10.0.0.2:7071")]
      [("k", ⟨"x", 5, "node-a"⟩)] 0 true 0 4

def ackedPush : Exchange Bool where
  sender := false
  peerId := "10.0.0.2:7071"
  peerAddr := "10.0.0.2:7071"
  msg := { fromNodeId := "node-a", fromGossipAddr := "10.0.0.1:7071",
           deltas := [("k", ⟨"x", 5, "node-a"⟩)], generation := 0 }
  maxSentTs := 5
  send := .acked
  recv := .closed

theorem acked_delivered_overwritten :
    ∃ c d, Machine.run (step twoNodes) (init twoNodes) ackedWrite = some c ∧ ackedPush ∈ c.exchanges
      ∧ Machine.run (step twoNodes) c (Action.setAlone true "k" "y" 9 1) = some d
      ∧ ∃ w, d.get true "k" = some w
        ∧ (w = ⟨"x", 5, "node-a"⟩ ∨ LwwValue.stamp ⟨"x", 5, "node-a"⟩ < w.stamp) := by
  have hruns : (Machine.run (step twoNodes) (init twoNodes) ackedWrite).any (fun c =>
      decide (ackedPush ∈ c.exchanges) &&
        (Machine.run (step twoNodes) c (Action.setAlone true "k" "y" 9 1)).any fun _ => true) := by
    decide +kernel
  obtain ⟨c, hc, hpush⟩ := Machine.exists_of_any_run hruns
  obtain ⟨hpush, hd⟩ := (Bool.and_eq_true _ _).mp hpush
  have hpush := of_decide_eq_true hpush
  obtain ⟨d, hd, _⟩ := Machine.exists_of_any_run hd
  have hdelivered := (acked_delivered twoNodes_ids_injective (by decide) hc).1 ackedPush hpush rfl
    true rfl _ d (by decide) hd
  exact ⟨c, d, hc, hpush, hd, hdelivered "k" _ List.mem_cons_self⟩

end Cluster

end StateSync
