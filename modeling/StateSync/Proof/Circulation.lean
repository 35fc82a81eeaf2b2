import StateSync.Proof.Discovery
import Mathlib.Data.Finset.Sort
import Mathlib.Data.Finset.Union
import Mathlib.Data.Fintype.Basic

/-!
# Gossip dies out

Only a `set` brings an entry into the cluster: merging, relaying and acknowledging move the entries
there are. An acknowledged push raises the watermark to the greatest timestamp it carried, so what
is sent through the same entry of the peer table afterwards is greater and still one of finitely
many. The code takes step 1 of a round earlier than step 2, though: the round that is about to push
may have copied the peer entry before the last acknowledgement came in, and then sends the same
delta a second time. It cannot do so twice, because a round copies an entry once.
-/

namespace StateSync

theorem LiveStore.mem_offering_step {live live' : LiveStore} {sa : StoreAction}
    (hstep : live.step sa = some live') {task : Task} (htask : task ∈ live'.tasks)
    {entry : String × LwwValue} (hentry : entry ∈ task.offering) :
    task ∈ live.tasks ∨ (∃ key value now, sa = .callSet key value now)
      ∨ ∃ delta, sa = .callMerge delta ∧ entry ∈ delta := by
  obtain ⟨t, rfl, _, _, _, hcall⟩ | ⟨i, t, t', sent, _, _, _, htasks, _, hadvance⟩ :=
    step_cases hstep
  · obtain hold | hnew := List.mem_append.mp htask
    · exact Or.inl hold
    · obtain rfl := List.mem_singleton.mp hnew
      obtain ⟨key, value, now, ha, _⟩ | ⟨delta, ha, rfl⟩ := hcall
      · exact Or.inr (Or.inl ⟨key, value, now, ha⟩)
      · exact Or.inr (Or.inr ⟨delta, ha, hentry⟩)
  · rw [htasks] at htask
    obtain hold | rfl := List.mem_or_eq_of_mem_set htask
    · exact Or.inl hold
    · rw [(Task.advance_spec hadvance).offering] at hentry
      exact absurd hentry List.not_mem_nil

/-- The entry under this key is known to have received everything up to this timestamp, and is past
its introduction. -/
def PeerTable.Synced (peers : PeerTable) (p : String) (ts : Nat) : Prop :=
  ∃ info, peers.lookup p = some info ∧ ts ≤ info.lastSyncTs ∧ 0 < info.exchangeCount

theorem PeerTable.Synced.later {peers peers' : PeerTable} {p : String} {ts : Nat}
    (h : peers.Synced p ts) (hlater : peers.Later peers') : peers'.Synced p ts := by
  obtain ⟨info, hinfo, hts, hcount⟩ := h
  obtain ⟨info', hinfo', hsame⟩ := hlater p info hinfo
  exact ⟨info', hinfo', hts.trans hsame.lastSyncTs, hcount.trans_le hsame.exchangeCount⟩

/-- Nothing is written, and no node stops. -/
def Action.Silent {ι : Type} (a : Action ι) : Prop :=
  (∀ n key value now, a ≠ .callSet n key value now) ∧ ∀ n, a ≠ .restart n

namespace Cluster

variable {ι : Type} [DecidableEq ι] {net : Network ι} {c c' : Cluster ι}

/-! ### The copies in a round -/

theorem Steps.round_kept_or_idle {a : Action ι} (h : Steps net c a c') (ha : a.roundNode = none)
    (m : ι) :
    (c'.nodes m).round = (c.nodes m).round ∨ (c'.nodes m).round = .idle := by
  have hupdate {n : ι} {node : Node}
      (hround : node.round = (c.nodes n).round ∨ node.round = .idle) :
      (Function.update c.nodes n node m).round = (c.nodes m).round
        ∨ (Function.update c.nodes n node m).round = .idle :=
    (Function.forall_update_iff c.nodes fun m node =>
      node.round = (c.nodes m).round ∨ node.round = .idle).mpr
      ⟨hround, fun _ _ => Or.inl rfl⟩ m
  cases h with
  | round hact hcopies => simp [ha] at hact
  | send hcopy hcopies hdelta hfrom haddr hmsg => simp [Action.roundNode] at ha
  | store hact hlive => exact hupdate (Or.inl rfl)
  | accept hex hr hrecv hlive => exact hupdate (Or.inl rfl)
  | register hex hrecv htask => exact hupdate (Or.inl rfl)
  | recvAck hex hsend hrecv => exact hupdate (Or.inl rfl)
  | restart => exact hupdate (Or.inr rfl)
  | writeAck hex hrecv => exact Or.inl rfl
  | failSend hex hsend => exact Or.inl rfl
  | lose hex => exact Or.inl rfl

/-- A round copies an entry of the peer table at most once. -/
theorem step_nodup_copies {a : Action ι} (hstep : c.step net a = some c')
    (h : ∀ m, ((c.nodes m).round.copies.map Prod.fst).Nodup) (m : ι) :
    ((c'.nodes m).round.copies.map Prod.fst).Nodup := by
  have hupdate {n : ι} {node : Node} (hnode : (node.round.copies.map Prod.fst).Nodup) :
      ((Function.update c.nodes n node m).round.copies.map Prod.fst).Nodup :=
    (Function.forall_update_iff c.nodes fun _ node => (node.round.copies.map Prod.fst).Nodup).mpr
      ⟨hnode, fun m _ => h m⟩ m
  cases a with
  | beginRound n =>
      obtain ⟨due, rfl⟩ := step_beginRound hstep
      exact hupdate List.nodup_nil
  | scanPeer n peerId =>
      obtain ⟨info, due, yielded, _, hround, hnew, rfl⟩ := step_scanPeer hstep
      have hyielded := h n
      rw [hround] at hyielded
      refine hupdate ?_
      rw [RoundPc.copies, List.map_append, List.map_singleton]
      exact List.nodup_append.mpr ⟨hyielded, List.nodup_singleton _, by grind⟩
  | startRound n shuffled =>
      obtain ⟨due, yielded, gen, pc, hround, hperm, hcopies, rfl⟩ := step_startRound hstep
      have hyielded := h n
      rw [hround] at hyielded
      have hshuffled := (hperm.map Prod.fst).nodup_iff.mpr hyielded
      exact hupdate (hshuffled.sublist (hcopies.map Prod.fst))
  | sendNext n delta =>
      obtain ⟨peerId, info, pc, hcopies, _, hstep⟩ := step_sendNext hstep
      have hnodup := h n
      rw [hcopies, List.map_cons] at hnodup
      obtain rfl | ⟨msg, _, _, _, _, rfl⟩ := hstep
      · exact hupdate hnodup.of_cons
      · exact hupdate hnodup.of_cons
  | _ =>
      obtain hround | hround := (step_spec hstep).round_kept_or_idle rfl m
      · rw [hround]
        exact h m
      · rw [hround]
        exact List.nodup_nil

theorem run_nodup_copies {as : List (Action ι)}
    (hrun : Machine.run (step net) (init net) as = some c) (m : ι) :
    ((c.nodes m).round.copies.map Prod.fst).Nodup := by
  refine Machine.run_invariant
    (P := fun t : Cluster ι => ∀ m, ((t.nodes m).round.copies.map Prod.fst).Nodup)
    ?_ ?_ hrun m
  · exact fun _ _ _ h hstep => step_nodup_copies hstep h
  · exact fun _ => List.nodup_nil

theorem step_pushed {a : Action ι} (hstep : c.step net a = some c') {ex : Exchange ι}
    (hex : c'.exchanges[c.exchanges.length]? = some ex) :
    ∃ info delta,
      (c.nodes ex.sender).round.copies = (ex.peerId, info) :: (c'.nodes ex.sender).round.copies
        ∧ ex.maxSentTs = maxSentTs delta
        ∧ delta.Perm ((c.nodes ex.sender).live.deltaSince info.lastSyncTs)
        ∧ (delta = [] → info.exchangeCount = 0) := by
  obtain ⟨n, delta, rfl⟩ : ∃ n delta, a = .sendNext n delta := by
    cases step_spec hstep with
    | send hcopy hcopies hdelta hfrom haddr hmsg => exact ⟨_, _, rfl⟩
    | _ => simp [setNode, setExchange] at hex
  obtain ⟨peerId, info, pc, hcopies, hdelta, rfl | ⟨msg, hcount, _, _, _, rfl⟩⟩ :=
    step_sendNext hstep
  · simp [setNode] at hex
  · rw [List.getElem?_concat_length, Option.some.injEq] at hex
    obtain rfl := hex
    refine ⟨info, delta, ?_, rfl, hdelta, hcount⟩
    simpa using hcopies

theorem step_length_le {a : Action ι} (hstep : c.step net a = some c') :
    c'.exchanges.length ≤ c.exchanges.length + 1 := by
  cases step_spec hstep <;> simp [setNode, setExchange]

/-! ### The entries in circulation -/

/-- The entries in the stores and in the messages on their way. A message that was received and not
merged yet is in the task that is about to merge it. -/
def circulating [Fintype ι] (c : Cluster ι) : Finset (String × LwwValue) :=
  (Finset.univ.biUnion fun n =>
      ((c.nodes n).live.snapshot ++ (c.nodes n).live.tasks.flatMap Task.offering).toFinset)
    ∪ ((c.exchanges.filter fun ex => ex.recv = .inFlight).flatMap fun ex =>
        ex.msg.deltas).toFinset

def timestamps [Fintype ι] (c : Cluster ι) : Finset Nat :=
  c.circulating.image fun entry => entry.2.timestamp

theorem mem_circulating [Fintype ι] {entry : String × LwwValue} :
    entry ∈ c.circulating ↔
      (∃ n, c.get n entry.1 = some entry.2)
        ∨ (∃ n, ∃ task ∈ (c.nodes n).live.tasks, entry ∈ task.offering)
        ∨ ∃ ex ∈ c.exchanges, ex.recv = .inFlight ∧ entry ∈ ex.msg.deltas := by
  obtain ⟨k, v⟩ := entry
  simp [circulating, StateStore.snapshot, mem_iter, get, StateStore.get, exists_or, or_assoc,
    and_assoc]

theorem Steps.inFlight_of_accept {x : Nat} (h : Steps net c (.accept x) c') {ex : Exchange ι}
    (hex : c.exchanges[x]? = some ex) : ex.recv = .inFlight := by
  cases h with
  | store hact hlive => simp [Action.storeAction] at hact
  | round hact hcopies => simp [Action.roundNode] at hact
  | accept hex' hr hrecv hlive =>
      obtain rfl := Option.some.inj (hex.symm.trans hex')
      exact hrecv

theorem Steps.mem_offering {a : Action ι} (h : Steps net c a c')
    (hset : ∀ n key value now, a ≠ .callSet n key value now) (ha : ∀ n, a ≠ .restart n) {n : ι}
    {task : Task} (htask : task ∈ (c'.nodes n).live.tasks) {entry : String × LwwValue}
    (hentry : entry ∈ task.offering) :
    task ∈ (c.nodes n).live.tasks
      ∨ ∃ ex ∈ c.exchanges, ex.recv = .inFlight ∧ entry ∈ ex.msg.deltas := by
  obtain hlive | ⟨sa, hlive, hact⟩ := (h.node n).live (ha n)
  · exact Or.inl (hlive ▸ htask)
  · obtain hold | ⟨key, value, now, rfl⟩ | ⟨delta, rfl, hdelta⟩ :=
      LiveStore.mem_offering_step hlive htask hentry
    · exact Or.inl hold
    · obtain hact | ⟨x, ex, _, _, heq⟩ := hact
      · cases a <;> simp_all [Action.storeAction]
      · simp at heq
    · obtain hact | ⟨x, ex, rfl, hex, heq⟩ := hact
      · cases a <;> simp [Action.storeAction] at hact
      · obtain rfl := by simpa using heq
        exact Or.inr ⟨ex, List.mem_of_getElem? hex, h.inFlight_of_accept hex, hdelta⟩

theorem Steps.mem_inFlight {a : Action ι} (h : Steps net c a c') (ha : ∀ n, a ≠ .restart n)
    {ex' : Exchange ι} (hex' : ex' ∈ c'.exchanges) (hrecv : ex'.recv = .inFlight)
    {entry : String × LwwValue} (hentry : entry ∈ ex'.msg.deltas) :
    (∃ n, c.get n entry.1 = some entry.2)
      ∨ ∃ ex ∈ c.exchanges, ex.recv = .inFlight ∧ entry ∈ ex.msg.deltas := by
  obtain ⟨x, hx⟩ := List.mem_iff_getElem?.mp hex'
  obtain ⟨ex, hex, hmove⟩ | ⟨_, hpushed, _⟩ := h.exchange ha hx
  · rw [hmove.samePush.msg] at hentry
    refine Or.inr ⟨ex, List.mem_of_getElem? hex, ?_, hentry⟩
    cases hmove with
    | same => exact hrecv
    | failSend hsend => exact hrecv
    | _ => simp at hrecv
  · obtain ⟨info, _, _, hdelta⟩ := hpushed.copy
    exact Or.inl ⟨_, (mem_deltaSince.mp (hdelta.mem_iff.mp hentry)).1⟩

/-- **Only a `set` brings an entry into circulation.** -/
theorem Steps.circulating_subset [Fintype ι] {a : Action ι} (h : Steps net c a c')
    (hset : ∀ n key value now, a ≠ .callSet n key value now) (ha : ∀ n, a ≠ .restart n) :
    c'.circulating ⊆ c.circulating := by
  intro entry hentry
  rw [mem_circulating] at hentry ⊢
  obtain ⟨n, hget⟩ | ⟨n, task, htask, hoffering⟩ | ⟨ex, hex, hrecv, hdelta⟩ := hentry
  · obtain hold | ⟨i, task, _, htask, hoffering, _⟩ := (h.node n).get_cases hget
    · exact Or.inl ⟨n, hold⟩
    · exact Or.inr (Or.inl ⟨n, task, List.mem_of_getElem? htask, hoffering⟩)
  · obtain hold | hmsg := h.mem_offering hset ha htask hoffering
    · exact Or.inr (Or.inl ⟨n, task, hold, hoffering⟩)
    · exact Or.inr (Or.inr hmsg)
  · exact (h.mem_inFlight ha hex hrecv hdelta).imp id Or.inr

/-! ### What the watermark remembers -/

theorem Steps.acked_cases {a : Action ι} (h : Steps net c a c') (ha : ∀ n, a ≠ .restart n) {x : Nat}
    {ex' : Exchange ι} (hx : c'.exchanges[x]? = some ex') (hacked : ex'.send = .acked) :
    (∃ ex, c.exchanges[x]? = some ex ∧ ex.send = .acked)
      ∨ (c'.nodes ex'.sender).peers.Synced ex'.peerId ex'.maxSentTs := by
  have hkept {y : Nat} {ex ex₁ : Exchange ι} (hex : c.exchanges[y]? = some ex)
      (hx : (c.exchanges.set y ex₁)[x]? = some ex')
      (hkeep : ex₁.send = .acked → ex.send = .acked) :
      ∃ ex₀, c.exchanges[x]? = some ex₀ ∧ ex₀.send = .acked :=
    Slots.of_set (P := fun ex => ex.send = .acked) hex hkeep hx hacked
  cases h with
  | store hact hlive => exact Or.inl ⟨ex', hx, hacked⟩
  | round hact hcopies => exact Or.inl ⟨ex', hx, hacked⟩
  | send hcopy hcopies hdelta hfrom haddr hmsg =>
      obtain hold | ⟨_, rfl⟩ := Slots.getElem?_concat_cases hx
      · exact Or.inl ⟨ex', hold, hacked⟩
      · simp at hacked
  | accept hex hr hrecv hlive => exact Or.inl (hkept hex hx id)
  | register hex hrecv htask => exact Or.inl (hkept hex hx id)
  | @recvAck y ex ack hex hsend hrecv =>
      by_cases hxy : y = x
      · subst hxy
        obtain ⟨hlt, _⟩ := List.getElem?_eq_some_iff.mp hex
        obtain rfl : { ex with send := SendPc.acked, recv := RecvPc.closed } = ex' := by
          simpa [setNode, setExchange, hlt] using hx
        apply Or.inr
        simp only [setNode, setExchange, Function.update_self]
        exact ⟨_, PeerTable.lookup_upsert_self _ _ _ _, le_max_right _ _, Nat.succ_pos _⟩
      · rw [setExchange, List.getElem?_set_ne hxy] at hx
        exact Or.inl ⟨ex', hx, hacked⟩
  | writeAck hex hrecv => exact Or.inl (hkept hex hx id)
  | failSend hex hsend => exact Or.inl (hkept hex hx (by simp))
  | lose hex => exact Or.inl (hkept hex hx id)
  | restart => exact absurd rfl (ha _)

/-- The sender remembers the pushes that were acknowledged since the state `c₀`. -/
def Remembered (c₀ c : Cluster ι) : Prop :=
  ∀ (x : Nat) ex, c.exchanges[x]? = some ex → ex.send = .acked →
    (∃ ex₀, c₀.exchanges[x]? = some ex₀ ∧ ex₀.send = .acked)
      ∨ (c.nodes ex.sender).peers.Synced ex.peerId ex.maxSentTs

theorem Remembered.step {c₀ : Cluster ι} (h : Remembered c₀ c) {a : Action ι}
    (hsteps : Steps net c a c') (ha : ∀ n, a ≠ .restart n) : Remembered c₀ c' := by
  intro x ex' hx hacked
  obtain ⟨ex, hex, hold⟩ | hsynced := hsteps.acked_cases ha hx hacked
  · obtain ⟨ex₁, hex₁, hsame⟩ := hsteps.samePush_of_old hex
    obtain rfl : ex' = ex₁ := Option.some.inj (hx.symm.trans hex₁)
    rw [hsame.sender, hsame.peerId, hsame.maxSentTs]
    exact (h x ex hex hold).imp id fun hsynced => hsynced.later ((hsteps.node _).later (ha _))
  · exact Or.inr hsynced

/-- Node `A` knows the entry `p` to be in sync up to `ts`, the running round knows it as well, and
what was pushed through it from index `L` on is newer and among the timestamps `T`. -/
structure Beyond (A : ι) (p : String) (ts L : Nat) (T : Finset Nat) (c : Cluster ι) : Prop where
  entry : (c.nodes A).peers.Synced p ts
  copies : ∀ info, (p, info) ∈ (c.nodes A).round.copies →
    ts ≤ info.lastSyncTs ∧ 0 < info.exchangeCount
  pushed : ∀ (x : Nat) ex, L ≤ x → c.exchanges[x]? = some ex → ex.sender = A → ex.peerId = p →
    ts < ex.maxSentTs ∧ ex.maxSentTs ∈ T

theorem Beyond.step_copies {A : ι} {p : String} {ts L : Nat} {T : Finset Nat}
    (h : Beyond A p ts L T c) {a : Action ι} (hsteps : Steps net c a c') {info : PeerInfo}
    (hcopy : (p, info) ∈ (c'.nodes A).round.copies) :
    ts ≤ info.lastSyncTs ∧ 0 < info.exchangeCount := by
  have hnode := hsteps.node A
  generalize c'.nodes A = node at hnode hcopy
  cases hnode with
  | round hcopies =>
      obtain hold | hinfo := hcopies _ hcopy
      · exact h.copies info hold
      · obtain ⟨current, hcurrent, hsynced⟩ := h.entry
        obtain rfl : info = current := Option.some.inj (hinfo.symm.trans hcurrent)
        exact hsynced
  | restart hact => exact absurd hcopy List.not_mem_nil
  | _ => exact h.copies info hcopy

/-- What the watermark and the introduction rule leave to be sent is newer than the watermark. -/
theorem maxSentTs_deltaSince [Fintype ι] {A : ι} {info : PeerInfo} {delta : StateDelta}
    (hdelta : delta.Perm ((c.nodes A).live.deltaSince info.lastSyncTs)) (hne : delta ≠ []) :
    info.lastSyncTs < maxSentTs delta ∧ maxSentTs delta ∈ c.timestamps := by
  obtain ⟨k, v, hentry, hmax⟩ := exists_mem_maxSentTs hne
  obtain ⟨hget, hlt⟩ := mem_deltaSince.mp (hdelta.mem_iff.mp hentry)
  rw [hmax]
  exact ⟨hlt, Finset.mem_image.mpr ⟨(k, v), mem_circulating.mpr (Or.inl ⟨A, hget⟩), rfl⟩⟩

theorem Beyond.step [Fintype ι] {A : ι} {p : String} {ts L : Nat} {T : Finset Nat}
    (h : Beyond A p ts L T c) (hT : c.timestamps ⊆ T) {a : Action ι}
    (hstep : c.step net a = some c') (ha : ∀ n, a ≠ .restart n) : Beyond A p ts L T c' where
  entry := h.entry.later (((step_spec hstep).node A).later (ha A))
  copies := fun _ hcopy => h.step_copies (step_spec hstep) hcopy
  pushed := by
    intro x ex' hL hx hsender hp
    obtain ⟨ex, hex, hsame, _⟩ | ⟨rfl, _⟩ := (step_spec hstep).samePush hx
    · rw [hsame.maxSentTs]
      exact h.pushed x ex hL hex (hsame.sender ▸ hsender) (hsame.peerId ▸ hp)
    · obtain ⟨info, delta, hcopies, hmax, hdelta, hcount⟩ := step_pushed hstep hx
      subst hsender hp
      obtain ⟨hts, hpos⟩ := h.copies info (by rw [hcopies]; exact List.mem_cons_self)
      have hne : delta ≠ [] := fun hnil => hpos.ne' (hcount hnil)
      obtain ⟨hlt, hmem⟩ := maxSentTs_deltaSince hdelta hne
      rw [hmax]
      exact ⟨hts.trans_lt hlt, hT hmem⟩

/-! ### Runs without a `set` -/

theorem guarded_silent {bs : List (Action ι)} (hsilent : ∀ a ∈ bs, a.Silent) (c : Cluster ι) :
    Machine.Guarded (step net) (fun _ a => a.Silent) c bs :=
  Machine.guarded_of_forall (fun a ha _ => hsilent a ha) c

theorem run_timestamps_subset [Fintype ι] {bs : List (Action ι)} (hsilent : ∀ a ∈ bs, a.Silent)
    (hrun : Machine.run (step net) c bs = some c') : c'.timestamps ⊆ c.timestamps := by
  refine Machine.run_invariant_of_guarded (P := fun t : Cluster ι => t.timestamps ⊆ c.timestamps)
    ?_ (Finset.Subset.refl _) (guarded_silent hsilent c) hrun
  intro t a u h hsilent hstep
  have hsubset := (step_spec hstep).circulating_subset hsilent.1 hsilent.2
  exact (Finset.image_subset_image hsubset).trans h

theorem run_remembered {bs : List (Action ι)} (hsilent : ∀ a ∈ bs, a.Silent)
    (hrun : Machine.run (step net) c bs = some c') : Remembered c c' := by
  refine Machine.run_invariant_of_guarded (P := Remembered c)
    ?_ (fun x ex hex hacked => Or.inl ⟨ex, hex, hacked⟩) (guarded_silent hsilent c) hrun
  exact fun t a u h hsilent hstep => h.step (step_spec hstep) hsilent.2

theorem run_beyond [Fintype ι] {A : ι} {p : String} {ts L : Nat} {T : Finset Nat}
    {bs : List (Action ι)} (hsilent : ∀ a ∈ bs, a.Silent) (h : Beyond A p ts L T c)
    (hT : c.timestamps ⊆ T) (hrun : Machine.run (step net) c bs = some c') :
    Beyond A p ts L T c' := by
  refine (Machine.run_invariant_of_guarded
    (P := fun t : Cluster ι => Beyond A p ts L T t ∧ t.timestamps ⊆ T)
    ?_ ⟨h, hT⟩ (guarded_silent hsilent c) hrun).1
  rintro t a u ⟨h, hT⟩ hsilent hstep
  refine ⟨h.step hT hstep hsilent.2, ?_⟩
  have hsubset := (step_spec hstep).circulating_subset hsilent.1 hsilent.2
  exact (Finset.image_subset_image hsubset).trans hT

theorem run_samePush {bs : List (Action ι)} (hrun : Machine.run (step net) c bs = some c') {x : Nat}
    {ex : Exchange ι} (hex : c.exchanges[x]? = some ex) :
    ∃ ex', c'.exchanges[x]? = some ex' ∧ SamePush ex ex' := by
  refine Machine.run_invariant
    (P := fun t : Cluster ι => ∃ ex', t.exchanges[x]? = some ex' ∧ SamePush ex ex')
    ?_ ⟨ex, hex, SamePush.refl ex⟩ hrun
  rintro t a u ⟨ex', hex', hsame⟩ hstep
  obtain ⟨ex₁, hex₁, hsame₁⟩ := (step_spec hstep).samePush_of_old hex'
  exact ⟨ex₁, hex₁, hsame.trans hsame₁⟩

theorem run_acked {bs : List (Action ι)} (hsilent : ∀ a ∈ bs, a.Silent)
    (hrun : Machine.run (step net) c bs = some c') {x : Nat} {ex : Exchange ι}
    (hex : c.exchanges[x]? = some ex) (hacked : ex.send = .acked) :
    ∃ ex', c'.exchanges[x]? = some ex' ∧ ex'.send = .acked := by
  refine Machine.run_invariant_of_guarded
    (P := fun t : Cluster ι => ∃ ex', t.exchanges[x]? = some ex' ∧ ex'.send = .acked)
    ?_ ⟨ex, hex, hacked⟩ (guarded_silent hsilent c) hrun
  rintro t a u ⟨ex', hex', hacked'⟩ hsilent hstep
  obtain ⟨ex₁, hex₁, hmove⟩ := (step_spec hstep).exchange_of_old hsilent.2 hex'
  exact ⟨ex₁, hex₁, hmove.acked hacked'⟩

/-! ### Lifetimes -/

def Acknowledged (c : Cluster ι) (A : ι) (p : String) (x : Nat) : Prop :=
  ∃ ex ∈ c.exchanges[x]?, ex.sender = A ∧ ex.peerId = p ∧ ex.send = .acked

instance (c : Cluster ι) (A : ι) (p : String) (x : Nat) : Decidable (c.Acknowledged A p x) :=
  inferInstanceAs (Decidable (∃ ex ∈ c.exchanges[x]?, _ ∧ _ ∧ _))

omit [DecidableEq ι] in
theorem not_acknowledged_init (A : ι) (p : String) (x : Nat) :
    ¬ (init net).Acknowledged A p x := by
  simp [Acknowledged, init]

/-- On the way of `bs` from `c`, the acknowledgement of exchange `x` was processed before the delta
of exchange `y` was built. -/
def EndsBefore (net : Network ι) (c : Cluster ι) (bs : List (Action ι)) (x y : Nat) : Prop :=
  ∃ pre post u, bs = pre ++ post ∧ Machine.run (step net) c pre = some u
    ∧ (∃ ex ∈ u.exchanges[x]?, ex.send = .acked) ∧ u.exchanges.length ≤ y

/-- It was even processed before the round that pushed `y` copied the entry `p`. -/
def EndsBeforeCopy (net : Network ι) (c : Cluster ι) (bs : List (Action ι)) (A : ι) (p : String)
    (x y : Nat) : Prop :=
  ∃ pre post u, bs = pre ++ post ∧ Machine.run (step net) c pre = some u
    ∧ (∃ ex ∈ u.exchanges[x]?, ex.send = .acked) ∧ u.exchanges.length ≤ y
    ∧ ∀ info, (p, info) ∉ (u.nodes A).round.copies

theorem EndsBefore.lt {bs : List (Action ι)} {x y : Nat} (h : EndsBefore net c bs x y) : x < y := by
  obtain ⟨pre, post, u, _, _, ⟨ex, hex, _⟩, hlength⟩ := h
  exact (List.getElem?_eq_some_iff.mp hex).1.trans_le hlength

theorem EndsBeforeCopy.endsBefore {bs : List (Action ι)} {A : ι} {p : String} {x y : Nat}
    (h : EndsBeforeCopy net c bs A p x y) : EndsBefore net c bs x y := by
  obtain ⟨pre, post, u, hbs, hpre, hacked, hlength, _⟩ := h
  exact ⟨pre, post, u, hbs, hpre, hacked, hlength⟩

/-- A push whose copy of the entry is younger than the acknowledgement carries newer timestamps. -/
theorem EndsBeforeCopy.maxSentTs_lt [Fintype ι] {bs : List (Action ι)} {A : ι} {p : String}
    {x y : Nat} (h : EndsBeforeCopy net c bs A p x y) (hsilent : ∀ a ∈ bs, a.Silent)
    (hrun : Machine.run (step net) c bs = some c') (hx : ¬ c.Acknowledged A p x)
    {ex ex' : Exchange ι} (hex : c'.exchanges[x]? = some ex) (hsender : ex.sender = A)
    (hp : ex.peerId = p) (hex' : c'.exchanges[y]? = some ex') (hsender' : ex'.sender = A)
    (hp' : ex'.peerId = p) : ex.maxSentTs < ex'.maxSentTs ∧ ex'.maxSentTs ∈ c.timestamps := by
  obtain ⟨pre, post, u, rfl, hpre, ⟨ex₀, hex₀, hacked⟩, hlength, hcopies⟩ := h
  obtain ⟨u', hu', hpost⟩ := Machine.run_append_eq_some.mp hrun
  obtain rfl : u = u' := Option.some.inj (hpre.symm.trans hu')
  have hsilentPre : ∀ a ∈ pre, a.Silent := fun a ha => hsilent a (List.mem_append_left _ ha)
  have hsilentPost : ∀ a ∈ post, a.Silent := fun a ha => hsilent a (List.mem_append_right _ ha)
  obtain ⟨ex₁, hex₁, hsame⟩ := run_samePush hpost hex₀
  obtain rfl : ex = ex₁ := Option.some.inj (hex.symm.trans hex₁)
  have hsynced : (u.nodes A).peers.Synced p ex.maxSentTs := by
    rw [← hsender, ← hp, hsame.sender, hsame.peerId, hsame.maxSentTs]
    refine (run_remembered hsilentPre hpre x ex₀ hex₀ hacked).resolve_left ?_
    rintro ⟨ex₂, hex₂, hacked₂⟩
    obtain ⟨ex₃, hex₃, hsame₃⟩ := run_samePush hpre hex₂
    obtain rfl : ex₀ = ex₃ := Option.some.inj (hex₀.symm.trans hex₃)
    exact hx ⟨ex₂, hex₂, by rw [← hsame₃.sender, ← hsame.sender, hsender],
      by rw [← hsame₃.peerId, ← hsame.peerId, hp], hacked₂⟩
  have hbeyond : Beyond A p ex.maxSentTs u.exchanges.length c.timestamps u :=
    { entry := hsynced
      copies := fun info hinfo => absurd hinfo (hcopies info)
      pushed := fun z exz hz hexz =>
        absurd (List.getElem?_eq_some_iff.mp hexz).1 (not_lt.mpr hz) }
  have hend := run_beyond hsilentPost hbeyond (run_timestamps_subset hsilentPre hpre) hpost
  exact hend.pushed y ex' hlength hex' hsender' hp'

/-- The round that pushes `y` is done with its only copy of the entry, so the next push through the
entry has a younger one. -/
theorem EndsBefore.copy_of_lt {as bs : List (Action ι)}
    (hinit : Machine.run (step net) (init net) as = some c)
    (hrun : Machine.run (step net) c bs = some c') {A : ι} {p : String} {x y z : Nat}
    (h : EndsBefore net c bs x y) (hy : c'.Acknowledged A p y) (hyz : y < z)
    (hsilent : ∀ a ∈ bs, a.Silent) : EndsBeforeCopy net c bs A p x z := by
  obtain ⟨pre, post, u, rfl, hpre, ⟨ex, hex, hacked⟩, hlength⟩ := h
  obtain ⟨u', hu', hpost⟩ := Machine.run_append_eq_some.mp hrun
  obtain rfl : u = u' := Option.some.inj (hpre.symm.trans hu')
  obtain ⟨exy, hexy, hsender, hp, _⟩ := hy
  obtain ⟨pre', a, post', v, w, rfl, hpre', hv, hstep, hw, hpost'⟩ :=
    Machine.exists_step_of_run (P := fun t : Cluster ι => y < t.exchanges.length)
      (not_lt.mpr hlength) (List.getElem?_eq_some_iff.mp hexy).1 hpost
  obtain rfl : y = v.exchanges.length := by
    have hle := step_length_le hstep
    omega
  obtain ⟨exy', hexy', hsame⟩ := run_samePush hpost' (List.getElem?_eq_getElem hw)
  obtain rfl : exy = exy' := Option.some.inj (hexy.symm.trans hexy')
  obtain ⟨info, delta, hcopies, _⟩ := step_pushed hstep (List.getElem?_eq_getElem hw)
  rw [← hsame.sender, ← hsame.peerId, hsender, hp] at hcopies
  have hreach : Machine.run (step net) (init net) (as ++ (pre ++ pre')) = some v :=
    Machine.run_append_eq_some.mpr
      ⟨c, hinit, Machine.run_append_eq_some.mpr ⟨u, hpre, hpre'⟩⟩
  have hnodup := run_nodup_copies hreach A
  rw [hcopies, List.map_cons, List.nodup_cons] at hnodup
  have hrun' : Machine.run (step net) u (pre' ++ [a]) = some w :=
    Machine.run_concat_eq_some.mpr ⟨v, hpre', hstep⟩
  refine ⟨pre ++ (pre' ++ [a]), post', w, by simp,
    Machine.run_append_eq_some.mpr ⟨u, hpre, hrun'⟩, ?_, ?_, ?_⟩
  · exact run_acked (fun b hb => hsilent b (by simp at hb ⊢; tauto)) hrun' hex hacked
  · exact (step_length_le hstep).trans hyz
  · exact fun info' hinfo' => hnodup.1 (List.mem_map.mpr ⟨(p, info'), hinfo', rfl⟩)

/-- A family of acknowledged pushes in which each ends before the copy of the `r`-th after it. -/
theorem card_le_of_endsBeforeCopy [Fintype ι] {bs : List (Action ι)}
    (hrun : Machine.run (step net) c bs = some c') (hsilent : ∀ a ∈ bs, a.Silent) {A : ι}
    {p : String} {F : Finset Nat} (hF : ∀ x ∈ F, ¬ c.Acknowledged A p x ∧ c'.Acknowledged A p x)
    {r : Nat} (hlag : ∀ i j : Fin F.card, (i : Nat) + r ≤ j →
      EndsBeforeCopy net c bs A p (F.orderEmbOfFin rfl i) (F.orderEmbOfFin rfl j)) :
    F.card ≤ r * (c.timestamps.card + 1) := by
  choose ex hex hsender hp hacked using
    fun i : Fin F.card => (hF _ (F.orderEmbOfFin_mem rfl i)).2
  refine Slots.card_le_of_lag (f := fun i => (ex i).maxSentTs) ?_
  intro i j hij
  exact (hlag i j hij).maxSentTs_lt hsilent hrun (hF _ (F.orderEmbOfFin_mem rfl i)).1 (hex i)
    (hsender i) (hp i) (hex j) (hsender j) (hp j)

theorem rel_of_pairwise {F : Finset Nat} {R : Nat → Nat → Prop}
    (hdisjoint : (F : Set Nat).Pairwise fun x y => R x y ∨ R y x) (hlt : ∀ x y, R x y → x < y)
    {x y : Nat} (hx : x ∈ F) (hy : y ∈ F) (hxy : x < y) : R x y :=
  (hdisjoint hx hy hxy.ne).resolve_right fun h => (hlt y x h).not_gt hxy

/-- **Gossip dies out.** When nothing is written any more, the pushes of a node through one entry of
its peer table that are acknowledged from then on, with disjoint lifetimes, are at most two for each
timestamp in circulation and two introductions. They are half as many when a lifetime begins where
the round copies the entry. -/
theorem card_acknowledged_le [Fintype ι] {as bs : List (Action ι)}
    (hinit : Machine.run (step net) (init net) as = some c)
    (hrun : Machine.run (step net) c bs = some c') (hsilent : ∀ a ∈ bs, a.Silent) (A : ι)
    (p : String) (F : Finset Nat)
    (hF : ∀ x ∈ F, ¬ c.Acknowledged A p x ∧ c'.Acknowledged A p x) :
    ((F : Set Nat).Pairwise
        (fun x y => EndsBefore net c bs x y ∨ EndsBefore net c bs y x) →
      F.card ≤ 2 * (c.timestamps.card + 1))
    ∧ ((F : Set Nat).Pairwise
        (fun x y => EndsBeforeCopy net c bs A p x y ∨ EndsBeforeCopy net c bs A p y x) →
      F.card ≤ c.timestamps.card + 1) := by
  constructor
  · intro hdisjoint
    refine card_le_of_endsBeforeCopy hrun hsilent hF ?_
    intro i j hij
    -- the round that makes the push between them is not the one that makes the later push
    obtain ⟨k, hik, hkj⟩ : ∃ k : Fin F.card, i < k ∧ k < j := by
      refine ⟨⟨i + 1, by omega⟩, ?_, ?_⟩
      · exact Fin.lt_def.mpr (Nat.lt_succ_self _)
      · exact Fin.lt_def.mpr (Nat.lt_of_succ_le hij)
    have hends := rel_of_pairwise hdisjoint (fun x y h => h.lt) (F.orderEmbOfFin_mem rfl i)
      (F.orderEmbOfFin_mem rfl k) ((F.orderEmbOfFin rfl).strictMono hik)
    exact hends.copy_of_lt hinit hrun (hF _ (F.orderEmbOfFin_mem rfl k)).2
      ((F.orderEmbOfFin rfl).strictMono hkj) hsilent
  · intro hdisjoint
    rw [← Nat.one_mul (c.timestamps.card + 1)]
    refine card_le_of_endsBeforeCopy hrun hsilent hF ?_
    intro i j hij
    exact rel_of_pairwise hdisjoint (fun x y h => h.endsBefore.lt) (F.orderEmbOfFin_mem rfl i)
      (F.orderEmbOfFin_mem rfl j) ((F.orderEmbOfFin rfl).strictMono hij)

def seedCopy : String × PeerInfo := ("10.0.0.2:7071", PeerInfo.new "10.0.0.2:7071")

/-- Node `a` copies its peer entry for the next round while its introduction is on the way. -/
def introduces : List (Action Bool) :=
  [.beginRound false, .scanPeer false "10.0.0.2:7071", .startRound false [seedCopy],
    .sendNext false [], .beginRound false, .scanPeer false "10.0.0.2:7071", .accept 0,
    .advance true 0, .advance true 0, .register 0, .writeAck 0, .recvAck 0]

/-- It builds the next push from this copy after the acknowledgement has come in. -/
def introducesAgain : List (Action Bool) :=
  [.startRound false [seedCopy], .sendNext false [], .accept 1, .advance true 1, .advance true 1,
    .register 1, .writeAck 1, .recvAck 1]

def introducesTwice : List (Action Bool) := introduces ++ introducesAgain

theorem silent_introducesTwice : ∀ a ∈ introducesTwice, a.Silent := by
  simp [introducesTwice, introduces, introducesAgain, Action.Silent]

theorem run_introducesTwice :
    ∃ c, Machine.run (step twoNodes) (init twoNodes) introducesTwice = some c
      ∧ (∀ x ∈ ({0, 1} : Finset Nat), c.Acknowledged false "10.0.0.2:7071" x)
      ∧ (({0, 1} : Finset Nat) : Set Nat).Pairwise (fun x y =>
          EndsBefore twoNodes (init twoNodes) introducesTwice x y
            ∨ EndsBefore twoNodes (init twoNodes) introducesTwice y x) := by
  have hpre : (Machine.run (step twoNodes) (init twoNodes) introduces).any (fun u => decide
      ((∃ ex ∈ u.exchanges[0]?, ex.send = .acked) ∧ u.exchanges.length ≤ 1)) := by
    decide +kernel
  have hrun : (Machine.run (step twoNodes) (init twoNodes) introducesTwice).any (fun c => decide
      (∀ x ∈ ({0, 1} : Finset Nat), c.Acknowledged false "10.0.0.2:7071" x)) := by
    decide +kernel
  obtain ⟨u, hpre, hu⟩ := Machine.exists_of_any_run hpre
  obtain ⟨hacked, hlength⟩ := of_decide_eq_true hu
  obtain ⟨c, hrun, hc⟩ := Machine.exists_of_any_run hrun
  refine ⟨c, hrun, of_decide_eq_true hc, ?_⟩
  have hends : EndsBefore twoNodes (init twoNodes) introducesTwice 0 1 :=
    ⟨_, _, u, rfl, hpre, hacked, hlength⟩
  rw [Finset.coe_pair, Set.pairwise_pair]
  exact fun _ => ⟨Or.inl hends, Or.inr hends⟩

theorem introductions_exceed_timestamps :
    (∀ n, ((init twoNodes).nodes n).live.Idle)
      ∧ (∀ a ∈ introducesTwice, a.Silent)
      ∧ ∃ c, Machine.run (step twoNodes) (init twoNodes) introducesTwice = some c
        ∧ (∀ x ∈ ({0, 1} : Finset Nat), ¬ (init twoNodes).Acknowledged false "10.0.0.2:7071" x
          ∧ c.Acknowledged false "10.0.0.2:7071" x)
        ∧ (({0, 1} : Finset Nat) : Set Nat).Pairwise (fun x y =>
            EndsBefore twoNodes (init twoNodes) introducesTwice x y
              ∨ EndsBefore twoNodes (init twoNodes) introducesTwice y x)
        ∧ (init twoNodes).timestamps.card + 1 < ({0, 1} : Finset Nat).card := by
  obtain ⟨c, hrun, hacked, hdisjoint⟩ := run_introducesTwice
  refine ⟨by decide, silent_introducesTwice, c, hrun, ?_, hdisjoint, by decide +kernel⟩
  exact fun x hx => ⟨not_acknowledged_init _ _ x, hacked x hx⟩

theorem card_acknowledged_le_introductions :
    ∃ c, Machine.run (step twoNodes) (init twoNodes) introducesTwice = some c
      ∧ ({0, 1} : Finset Nat).card ≤ 2 * ((init twoNodes).timestamps.card + 1)
      ∧ ({1} : Finset Nat).card ≤ (init twoNodes).timestamps.card + 1 := by
  obtain ⟨c, hrun, hacked, hdisjoint⟩ := run_introducesTwice
  have hinit : Machine.run (step twoNodes) (init twoNodes) [] = some (init twoNodes) := rfl
  have hbound (F : Finset Nat) (hF : F ⊆ {0, 1}) :=
    card_acknowledged_le hinit hrun silent_introducesTwice false "10.0.0.2:7071" F
      fun x hx => ⟨not_acknowledged_init _ _ x, hacked x (hF hx)⟩
  exact ⟨c, hrun, (hbound {0, 1} (Finset.Subset.refl _)).1 hdisjoint,
    (hbound {1} (by simp)).2 (by simp)⟩

end Cluster

end StateSync
