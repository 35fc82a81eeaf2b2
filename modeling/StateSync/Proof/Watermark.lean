import StateSync.Proof.Delivery

/-!
# What a watermark promises

`gossip_round` leaves out every entry whose timestamp is at most `last_sync_ts`. That is safe for an
entry of node `A` as long as node `B` dominates it, or it lies above the watermark and above what is
still to be acknowledged. `Covered` says so for one entry, and is kept by every step. Nothing makes
a new entry covered, though: the code compares its timestamp with the watermark only later, and an
entry that is stored below it is never sent. `Timely` is the condition that it was not.
-/

namespace StateSync

open Register

namespace Cluster

variable {ι : Type} (net : Network ι) (A B : ι) (keys : String → Prop)

/-- What the entries `keys` of `A`'s peer table leave out of a push to `B` does not concern this
entry of the store. -/
structure Covered (c : Cluster ι) (k : String) (v : LwwValue) : Prop where
  watermark : ∀ p info, keys p → (c.nodes A).peers.lookup p = some info →
    net.resolve info.gossipAddr = some B → v.timestamp ≤ info.lastSyncTs → c.Dominates B k v
  outstanding : ∀ (x : Nat) ex, c.exchanges[x]? = some ex → ex.sender = A → keys ex.peerId →
    net.resolve ex.peerAddr = some B → ex.send = .waiting → v.timestamp ≤ ex.maxSentTs →
      c.Dominates B k v ∨ (k, v) ∈ ex.msg.deltas

/-- `B` holds an entry that is at least as new, or the timestamp lies above the watermark of every
entry `keys` for `B`, and above every push through it that waits for its acknowledgement. -/
def Timely (c : Cluster ι) (k : String) (v : LwwValue) : Prop :=
  c.Dominates B k v ∨
    ((∀ entry ∈ (c.nodes A).peers.entries, keys entry.1 →
        net.resolve entry.2.gossipAddr = some B → entry.2.lastSyncTs < v.timestamp)
      ∧ ∀ ex ∈ c.exchanges, ex.sender = A → keys ex.peerId → net.resolve ex.peerAddr = some B →
          ex.send = .waiting → ex.maxSentTs < v.timestamp)

instance [DecidableEq ι] [DecidablePred keys] (c : Cluster ι) (k : String) (v : LwwValue) :
    Decidable (Timely net A B keys c k v) :=
  have : Decidable (c.Dominates B k v) :=
    inferInstanceAs (Decidable ((c.nodes B).live.state.Dominates k v))
  inferInstanceAs (Decidable (c.Dominates B k v ∨ _ ∧ _))

/-- The pushes from `A` through `keys` that `B` has handled and `A` still waits for. -/
def DeliveredThrough (c : Cluster ι) : Prop :=
  ∀ (x : Nat) ex, c.exchanges[x]? = some ex → ex.sender = A → keys ex.peerId →
    net.resolve ex.peerAddr = some B → ex.send = .waiting → ex.Handled →
      ∀ k v, (k, v) ∈ ex.msg.deltas → c.Dominates B k v

variable {net A B keys} {c c' : Cluster ι}

theorem covered_of_dominates {k : String} {v : LwwValue} (h : c.Dominates B k v) :
    Covered net A B keys c k v :=
  ⟨fun _ _ _ _ _ _ => h, fun _ _ _ _ _ _ _ _ => Or.inl h⟩

theorem Timely.covered {k : String} {v : LwwValue} (h : Timely net A B keys c k v) :
    Covered net A B keys c k v := by
  obtain hdominates | ⟨hentries, hpushes⟩ := h
  · exact covered_of_dominates hdominates
  · constructor
    · intro p info hp hinfo hresolve hle
      have hlt := hentries ⟨p, info⟩ (AList.mem_lookup_iff.mp hinfo) hp hresolve
      exact absurd hle (not_le.mpr hlt)
    · intro x ex hex hsender hp hresolve hsend hle
      have hlt := hpushes ex (List.mem_of_getElem? hex) hsender hp hresolve hsend
      exact absurd hle (not_le.mpr hlt)

theorem NodeSteps.lookup {a : Action ι} {m : ι} {node : Node} (h : NodeSteps net c a m node)
    (hwf : WellFormed net c) {p : String} {info' : PeerInfo}
    (hp : node.peers.lookup p = some info') :
    info'.lastSyncTs = 0 ∨ ∃ info, (c.nodes m).peers.lookup p = some info
      ∧ info'.gossipAddr = info.gossipAddr
      ∧ (info'.lastSyncTs = info.lastSyncTs
        ∨ ∃ (x : Nat) (ex : Exchange ι), c.exchanges[x]? = some ex ∧ ex.sender = m
            ∧ ex.peerId = p ∧ ex.peerAddr = info.gossipAddr ∧ ex.send = .waiting ∧ ex.Handled
            ∧ info'.lastSyncTs = max info.lastSyncTs ex.maxSentTs) := by
  cases h with
  | same => exact Or.inr ⟨info', hp, rfl, Or.inl rfl⟩
  | store hact hlive => exact Or.inr ⟨info', hp, rfl, Or.inl rfl⟩
  | accept hact hex hlive => exact Or.inr ⟨info', hp, rfl, Or.inl rfl⟩
  | round hcopies => exact Or.inr ⟨info', hp, rfl, Or.inl rfl⟩
  | @register x ex hact hex =>
      obtain ⟨info, hinfo, rfl | ⟨_, rfl⟩⟩ | ⟨_, _, rfl⟩ := PeerTable.lookup_upsert_cases hp
      · exact Or.inr ⟨_, hinfo, rfl, Or.inl rfl⟩
      · exact Or.inr ⟨info, hinfo, rfl, Or.inl rfl⟩
      · exact Or.inl rfl
  | @recvAck x ex ack hact hex hsender hsend hrecv =>
      subst hsender
      obtain ⟨current, hcurrent, haddr, _⟩ := hwf.waiting x ex hex hsend
      obtain ⟨info, hinfo, rfl | ⟨rfl, rfl⟩⟩ | ⟨rfl, hnone, _⟩ := PeerTable.lookup_upsert_cases hp
      · exact Or.inr ⟨_, hinfo, rfl, Or.inl rfl⟩
      · obtain rfl : info = current := Option.some.inj (hinfo.symm.trans hcurrent)
        exact Or.inr ⟨info, hinfo, rfl, Or.inr ⟨x, ex, hex, rfl, rfl, haddr.symm, hsend,
          Or.inr (Or.inr ⟨ack, hrecv⟩), rfl⟩⟩
      · rw [hnone] at hcurrent
        simp at hcurrent
  | restart hact => exact Or.inl (PeerTable.lastSyncTs_registerSeeds (by simp) hp)

theorem Covered.step [DecidableEq ι] (hwf : WellFormed net c)
    (hdelivered : DeliveredThrough net A B keys c) {a : Action ι} (hsteps : Steps net c a c')
    (hA : a ≠ .restart A) (hB : a ≠ .restart B) {k : String} {v : LwwValue} (hpos : 0 < v.timestamp)
    (hget : c'.get A k = some v) (h : Covered net A B keys c k v) :
    Covered net A B keys c' k v := by
  constructor
  · intro p info' hp hinfo' hresolve hle
    apply hsteps.dominates hB
    obtain hzero | ⟨info, hinfo, haddr, hts⟩ := (hsteps.node A).lookup hwf hinfo'
    · omega
    · rw [haddr] at hresolve
      obtain hsame | ⟨x, ex, hex, hsender, rfl, haddr', hsend, hhandled, hmax⟩ := hts
      · exact h.watermark p info hp hinfo hresolve (hsame ▸ hle)
      · rw [hmax] at hle
        obtain hle | hle := le_max_iff.mp hle
        · exact h.watermark _ info hp hinfo hresolve hle
        · rw [← haddr'] at hresolve
          obtain hdominates | hsent := h.outstanding x ex hex hsender hp hresolve hsend hle
          · exact hdominates
          · exact hdelivered x ex hex hsender hp hresolve hsend hhandled k v hsent
  · intro x ex' hex' hsender hp hresolve hsend hle
    obtain ⟨ex, hex, hsame, _⟩ | ⟨_, hpushed, _, hlive⟩ := hsteps.samePush hex'
    · rw [hsame.sender] at hsender
      rw [hsame.peerId] at hp
      rw [hsame.peerAddr] at hresolve
      rw [hsame.maxSentTs] at hle
      rw [hsame.msg]
      have hold := h.outstanding x ex hex hsender hp hresolve (hsame.waiting hsend) hle
      exact hold.imp (hsteps.dominates hB) id
    · obtain ⟨info, hcopy, haddr, hdelta⟩ := hpushed.copy
      subst hsender
      obtain ⟨current, hcurrent, hcurrentAddr, hcurrentTs⟩ := hwf.copies _ _ hcopy
      by_cases hlt : info.lastSyncTs < v.timestamp
      · refine Or.inr (hdelta.mem_iff.mpr (mem_deltaSince.mpr ⟨?_, hlt⟩))
        unfold get at hget
        rwa [hlive] at hget
      · -- what the copy leaves out, the watermark of the entry itself leaves out as well
        refine Or.inl (hsteps.dominates hB (h.watermark _ current hp hcurrent ?_ ?_))
        · rwa [hcurrentAddr, ← haddr]
        · exact (not_lt.mp hlt).trans hcurrentTs

theorem DeliveredThrough.step [DecidableEq ι] (hwf : WellFormed net c)
    (h : DeliveredThrough net A B keys c) {a : Action ι} (hsteps : Steps net c a c')
    (hB : a ≠ .restart B) : DeliveredThrough net A B keys c' := by
  intro x ex' hx hsender hp hresolve hsend hhandled k v hv
  apply hsteps.dominates hB
  obtain ⟨ex, hex, hsame, hold⟩ | hnew := hsteps.handled_or_dominates hwf hx hresolve hhandled
  · rw [hsame.sender] at hsender
    rw [hsame.peerId] at hp
    rw [hsame.peerAddr] at hresolve
    rw [hsame.msg] at hv
    exact h x ex hex hsender hp hresolve (hsame.waiting hsend) hold k v hv
  · exact hnew k v hv

/-! ### Some entries of a store -/

/-- A step keeps the entries `T` of `A`'s store covered when those that are new to them are in
time. -/
theorem covered_step [DecidableEq ι] {T : Cluster ι → String → LwwValue → Prop}
    (hwf : WellFormed net c) (hdelivered : DeliveredThrough net A B keys c)
    (hcovered : ∀ k v, T c k v → Covered net A B keys c k v) {a : Action ι}
    (hsteps : Steps net c a c') (hA : a ≠ .restart A) (hB : a ≠ .restart B)
    (hheld : ∀ k v, T c' k v → c'.get A k = some v ∧ 0 < v.timestamp)
    (hnew : A ≠ B → ∀ k v, T c' k v → T c k v ∨ Timely net A B keys c k v) (k : String)
    (v : LwwValue) (hv : T c' k v) : Covered net A B keys c' k v := by
  obtain ⟨hget, hpos⟩ := hheld k v hv
  by_cases hAB : A = B
  · subst hAB
    exact covered_of_dominates (StateMap.dominates_of_behind (Or.inl hget.symm))
  · apply Covered.step hwf hdelivered hsteps hA hB hpos hget
    obtain hold | htimely := hnew hAB k v hv
    · exact hcovered k v hold
    · exact htimely.covered

/-- The entries `T` of `A`'s store are covered, and the pushes to `B` through `keys` that are still
unacknowledged are among those that came after the first `N`, which reached the same run of `B`. -/
structure Safe (net : Network ι) (A B : ι) (keys : String → Prop) (N : Nat)
    (T : Cluster ι → String → LwwValue → Prop) (c : Cluster ι) : Prop where
  length : N ≤ c.exchanges.length
  recent : ∀ (x : Nat) ex, c.exchanges[x]? = some ex → ex.sender = A → keys ex.peerId →
    ex.send = .waiting → N ≤ x
  delivered : Delivered net N B c
  covered : ∀ k v, T c k v → Covered net A B keys c k v

theorem safe_init {T : Cluster ι → String → LwwValue → Prop} (hT : ∀ k v, ¬ T (init net) k v) :
    Safe net A B keys 0 T (init net) where
  length := Nat.zero_le _
  recent := fun _ _ _ _ _ _ => Nat.zero_le _
  delivered := fun _ _ _ hex => absurd hex (by simp [init])
  covered := fun k v hv => absurd hv (hT k v)

/-- **The watermark argument.** A step keeps the entries safe when those that are new to them are in
time. -/
theorem Safe.step [DecidableEq ι] {N : Nat} {T : Cluster ι → String → LwwValue → Prop}
    (hwf : WellFormed net c) (h : Safe net A B keys N T c) {a : Action ι}
    (hsteps : Steps net c a c')
    (hA : a ≠ .restart A) (hB : a ≠ .restart B)
    (hheld : ∀ k v, T c' k v → c'.get A k = some v ∧ 0 < v.timestamp)
    (hnew : A ≠ B → ∀ k v, T c' k v → T c k v ∨ Timely net A B keys c k v) :
    Safe net A B keys N T c' where
  length := h.length.trans hsteps.length_le
  recent := by
    intro x ex' hex' hsender hp hsend
    obtain ⟨ex, hex, hsame, _⟩ | ⟨hlength, _⟩ := hsteps.samePush hex'
    · rw [hsame.sender] at hsender
      rw [hsame.peerId] at hp
      exact h.recent x ex hex hsender hp (hsame.waiting hsend)
    · exact hlength ▸ h.length
  delivered := h.delivered.step hwf hsteps hB
  covered :=
    covered_step hwf
      (fun x ex hex hsender hp hresolve hsend hhandled =>
        h.delivered x ex (h.recent x ex hex hsender hp hsend) hex hresolve hhandled)
      h.covered hsteps hA hB hheld hnew

def StoresTimely [DecidableEq ι] (net : Network ι) (A B : ι) (keys : String → Prop)
    (c : Cluster ι) : Action ι → Prop
  | .advance n i => n = A → A ≠ B → ∀ task ∈ (c.nodes A).live.tasks[i]?,
      ∀ entry ∈ task.offering, (c.nodes A).live.state.stampAt entry.1 < entry.2.stamp →
        Timely net A B keys c entry.1 entry.2
  | _ => True

instance [DecidableEq ι] (net : Network ι) (A B : ι) (keys : String → Prop) [DecidablePred keys]
    (c : Cluster ι) : ∀ a, Decidable (StoresTimely net A B keys c a)
  | .advance n i => inferInstanceAs (Decidable (n = A → A ≠ B →
      ∀ task ∈ (c.nodes A).live.tasks[i]?, ∀ entry ∈ task.offering,
        (c.nodes A).live.state.stampAt entry.1 < entry.2.stamp →
          Timely net A B keys c entry.1 entry.2))
  | .callSet _ _ _ _ | .beginRound _ | .scanPeer _ _ | .startRound _ _ | .sendNext _ _ | .accept _
  | .register _ | .writeAck _ | .recvAck _ | .failSend _ | .lose _ | .restart _ => isTrue trivial

def HoldsAbove (A : ι) (ts : Nat) (c : Cluster ι) (k : String) (v : LwwValue) : Prop :=
  c.get A k = some v ∧ ts < v.timestamp

theorem HoldsAbove.pos {ts : Nat} {k : String} {v : LwwValue} (h : HoldsAbove A ts c k v) :
    c.get A k = some v ∧ 0 < v.timestamp :=
  ⟨h.1, Nat.zero_lt_of_lt h.2⟩

theorem holdsAbove_or_timely [DecidableEq ι] {ts : Nat} {a : Action ι} (hsteps : Steps net c a c')
    (htimely : StoresTimely net A B keys c a) (hAB : A ≠ B) (k : String) (v : LwwValue)
    (h : HoldsAbove A ts c' k v) : HoldsAbove A ts c k v ∨ Timely net A B keys c k v := by
  obtain hold | ⟨i, task, rfl, htask, hoffering, hlt⟩ := (hsteps.node A).get_cases h.1
  · exact Or.inl ⟨hold, h.2⟩
  · exact Or.inr (htimely rfl hAB task htask (k, v) hoffering hlt)

theorem Safe.step_holdsAbove [DecidableEq ι] {N ts : Nat} (hwf : WellFormed net c)
    (h : Safe net A B keys N (HoldsAbove A ts) c) {a : Action ι} (hsteps : Steps net c a c')
    (hA : a ≠ .restart A) (hB : a ≠ .restart B) (htimely : StoresTimely net A B keys c a) :
    Safe net A B keys N (HoldsAbove A ts) c' :=
  h.step hwf hsteps hA hB (fun _ _ => HoldsAbove.pos) (holdsAbove_or_timely hsteps htimely)

end Cluster

end StateSync
