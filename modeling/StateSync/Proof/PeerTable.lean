import StateSync.Gossip.Registry
import StateSync.Proof.ClusterInvariant

/-!
# What the peer table says about the peers

The key of an entry is the node id of a sender or an address from the seed list, and the entry keeps
the address it was created with: nothing moves the entry of a seed to the node id behind it, and
nothing records a new address. So the table is a map of the remote nodes exactly as long as every
sender announces one address of its own, which is not a seed's.
-/

namespace StateSync

def seedAddrs (seeds : List String) : List String := seeds.filter fun addr => addr ≠ ""

theorem PeerTable.lookup_registerSeeds (seeds : List String) (p : String) :
    (PeerTable.registerSeeds ∅ seeds).lookup p
      = if p ∈ seedAddrs seeds then some (PeerInfo.new p) else none := by
  have hfold (addrs : List String) (peers : PeerTable) :
      (addrs.foldl (fun peers addr => peers.upsert addr addr id) peers).lookup p
        = (peers.lookup p).or (if p ∈ addrs then some (PeerInfo.new p) else none) := by
    induction addrs generalizing peers with
    | nil => simp
    | cons addr rest ih =>
        rw [List.foldl_cons, ih]
        by_cases hp : p = addr
        · subst hp
          rw [lookup_upsert_self]
          cases peers.lookup p <;> simp
        · simp [lookup_upsert_of_ne hp, hp]
  rw [registerSeeds, hfold]
  simp [seedAddrs]

namespace Registry

/-- No two entries have the same address, and the entry of every node that was heard of has the
address of its latest message. -/
structure Faithful (registry : Registry) (messages : List (String × String)) : Prop where
  distinct : ∀ p q info info', registry.peers.lookup p = some info →
    registry.peers.lookup q = some info' → info.gossipAddr = info'.gossipAddr → p = q
  latest : ∀ id addr, latestFrom messages id = some addr →
    ∃ info, registry.peers.lookup id = some info ∧ info.gossipAddr = addr

/-- Every sender announces one address and none that another announces, and it has to do with a seed
only when its node id and its address are that seed. -/
structure Coherent (seeds : List String) (messages : List (String × String)) : Prop where
  seed : ∀ msg ∈ messages, msg.1 ∈ seedAddrs seeds ∨ msg.2 ∈ seedAddrs seeds → msg.1 = msg.2
  single : ∀ msg ∈ messages, ∀ msg' ∈ messages, msg.1 = msg'.1 ↔ msg.2 = msg'.2

/-- A seed that answers, and a node that comes back at another address. -/
theorem peers_not_faithful :
    (∃ registry, Machine.run step (new ["10.0.0.2:7071"]) [.inbound "node-b" "10.0.0.2:7071"]
        = some registry ∧ ¬ registry.Faithful [("node-b", "10.0.0.2:7071")])
      ∧ ∃ registry, Machine.run step (new [])
            [.inbound "node-b" "10.0.0.2:7071", .inbound "node-b" "10.0.0.3:7071"] = some registry
          ∧ ¬ registry.Faithful [("node-b", "10.0.0.2:7071"), ("node-b", "10.0.0.3:7071")] := by
  refine ⟨⟨_, rfl, fun h => ?_⟩, ⟨_, rfl, fun h => ?_⟩⟩
  · have hsame := h.distinct "node-b" "10.0.0.2:7071" ⟨"10.0.0.2:7071", 0, 1⟩
      ⟨"10.0.0.2:7071", 0, 0⟩ (by decide +kernel) (by decide +kernel) rfl
    exact absurd hsame (by decide)
  · obtain ⟨info, hinfo, haddr⟩ := h.latest "node-b" "10.0.0.3:7071" (by decide +kernel)
    have hkept : info = ⟨"10.0.0.2:7071", 0, 2⟩ := by
      rw [← Option.some.injEq, ← hinfo]
      decide +kernel
    rw [hkept] at haddr
    exact absurd haddr (by decide)

/-! ### Where an entry comes from -/

variable {registry registry' : Registry} {seeds : List String} {as : List RegistryAction}

theorem step_covers {a : RegistryAction} (hstep : registry.step a = some registry')
    {p addr : String} {ts : Nat} (h : registry.peers.Covers p addr ts) :
    registry'.peers.Covers p addr ts := by
  cases a with
  | inbound fromNodeId fromGossipAddr =>
      obtain rfl := Option.some.inj hstep
      exact h.later (PeerTable.later_upsert _ _ _ PeerInfo.later_markSeen)
  | push peerId =>
      simp only [step, Option.bind_eq_bind, Option.bind_eq_some_iff] at hstep
      obtain ⟨info, _, hstep⟩ := hstep
      obtain rfl := Option.some.inj hstep
      exact h
  | ack i maxSentTs =>
      simp only [step, Option.bind_eq_bind, Option.bind_eq_some_iff] at hstep
      obtain ⟨push, _, hstep⟩ := hstep
      obtain rfl := Option.some.inj hstep
      exact h.later (PeerTable.later_upsert _ _ _ (PeerInfo.later_recordExchange _))

/-- What every run keeps, given the messages handled in it. -/
structure Tracked (seeds : List String) (messages : List (String × String))
    (registry : Registry) : Prop where
  pushes : ∀ push ∈ registry.pushes, registry.peers.Covers push.1 push.2 0
  seeded : ∀ addr ∈ seedAddrs seeds, registry.peers.Covers addr addr 0
  registered : ∀ msg ∈ messages, ∃ addr, registry.peers.Covers msg.1 addr 0
  source : ∀ p info, registry.peers.lookup p = some info →
    p ∈ seedAddrs seeds ∧ info.gossipAddr = p
      ∨ p ∉ seedAddrs seeds ∧ (p, info.gossipAddr) ∈ messages

theorem tracked_new (seeds : List String) : Tracked seeds [] (new seeds) where
  pushes := fun _ h => absurd h List.not_mem_nil
  seeded := fun addr haddr =>
    ⟨PeerInfo.new addr, by simp [new, PeerTable.lookup_registerSeeds, haddr], rfl, le_rfl⟩
  registered := fun _ h => absurd h List.not_mem_nil
  source := by
    intro p info hp
    rw [new, PeerTable.lookup_registerSeeds] at hp
    split at hp
    · rename_i hseed
      obtain rfl := Option.some.inj hp
      exact Or.inl ⟨hseed, rfl⟩
    · simp at hp

theorem handled_concat (as : List RegistryAction) (a : RegistryAction) :
    handled (as ++ [a]) = handled as ++ handled [a] := List.filterMap_append

theorem Tracked.step {messages : List (String × String)} (h : Tracked seeds messages registry)
    {a : RegistryAction} (hstep : registry.step a = some registry') :
    Tracked seeds (messages ++ handled [a]) registry' := by
  have hseeded (addr : String) (haddr : addr ∈ seedAddrs seeds) :=
    step_covers hstep (h.seeded addr haddr)
  have hregistered (msg : String × String) (hmsg : msg ∈ messages) :
      ∃ addr, registry'.peers.Covers msg.1 addr 0 := by
    obtain ⟨addr, hcovers⟩ := h.registered msg hmsg
    exact ⟨addr, step_covers hstep hcovers⟩
  have hpushes (push : String × String) (hpush : push ∈ registry.pushes) :=
    step_covers hstep (h.pushes push hpush)
  cases a with
  | inbound fromNodeId fromGossipAddr =>
      obtain rfl := Option.some.inj hstep
      refine ⟨hpushes, hseeded, ?_, ?_⟩
      · intro msg hmsg
        obtain hold | hnew := List.mem_append.mp hmsg
        · exact hregistered msg hold
        · obtain rfl : msg = (fromNodeId, fromGossipAddr) := by simpa [handled] using hnew
          exact ⟨_, _, PeerTable.lookup_upsert_self _ _ _ _, rfl, Nat.zero_le _⟩
      · intro p info' hp
        obtain ⟨info, hinfo, haddr⟩ | ⟨rfl, hnone, haddr⟩ :=
          PeerTable.gossipAddr_upsert hp fun _ => rfl
        · rw [haddr]
          exact (h.source p info hinfo).imp id fun hold =>
            ⟨hold.1, List.mem_append_left _ hold.2⟩
        · refine Or.inr ⟨fun hseed => ?_, List.mem_append_right _ (by simp [handled, haddr])⟩
          obtain ⟨info, hinfo, _⟩ := h.seeded p hseed
          simp [hnone] at hinfo
  | push peerId =>
      simp only [Registry.step, Option.bind_eq_bind, Option.bind_eq_some_iff] at hstep
      obtain ⟨info, hinfo, hstep⟩ := hstep
      obtain rfl := Option.some.inj hstep
      rw [show handled [.push peerId] = [] from rfl, List.append_nil]
      refine ⟨?_, hseeded, hregistered, h.source⟩
      intro push hpush
      obtain hold | hnew := List.mem_append.mp hpush
      · exact hpushes push hold
      · rw [List.mem_singleton.mp hnew]
        exact ⟨info, hinfo, rfl, Nat.zero_le _⟩
  | ack i maxSentTs =>
      simp only [Registry.step, Option.bind_eq_bind, Option.bind_eq_some_iff] at hstep
      obtain ⟨push, hpush, hstep⟩ := hstep
      obtain rfl := Option.some.inj hstep
      rw [show handled [.ack i maxSentTs] = [] from rfl, List.append_nil]
      refine ⟨hpushes, hseeded, hregistered, ?_⟩
      intro p info' hp
      obtain ⟨info, hinfo, haddr⟩ | ⟨rfl, hnone, _⟩ :=
        PeerTable.gossipAddr_upsert hp fun _ => rfl
      · rw [haddr]
        exact h.source p info hinfo
      · -- the entry the push was started from is still there
        obtain ⟨info, hinfo, _⟩ := h.pushes push (List.mem_of_getElem? hpush)
        simp [hnone] at hinfo

theorem run_tracked (hrun : Machine.run step (new seeds) as = some registry) :
    Tracked seeds (handled as) registry := by
  refine Machine.run_induction (P := fun as registry => Tracked seeds (handled as) registry)
    (tracked_new seeds) ?_ hrun
  intro as t a u _ ht hstep
  rw [handled_concat]
  exact ht.step hstep

/-! ### When the table is faithful -/

theorem mem_of_latestFrom {messages : List (String × String)} {id addr : String}
    (h : latestFrom messages id = some addr) : (id, addr) ∈ messages := by
  obtain ⟨⟨from', addr'⟩, hmsg, rfl⟩ := List.mem_map.mp (List.mem_of_getLast? h)
  obtain ⟨hmem, hid⟩ := List.mem_filter.mp hmsg
  obtain rfl : from' = id := of_decide_eq_true hid
  exact hmem

theorem latestFrom_concat_self (messages : List (String × String)) (id addr : String) :
    latestFrom (messages ++ [(id, addr)]) id = some addr := by
  simp [latestFrom]

theorem Coherent.of_subset {messages messages' : List (String × String)}
    (h : Coherent seeds messages) (hsubset : messages' ⊆ messages) : Coherent seeds messages' where
  seed := fun msg hmsg => h.seed msg (hsubset hmsg)
  single := fun msg hmsg msg' hmsg' => h.single msg (hsubset hmsg) msg' (hsubset hmsg')

theorem Tracked.faithful {messages : List (String × String)} (h : Tracked seeds messages registry)
    (hcoherent : Coherent seeds messages) : registry.Faithful messages where
  distinct := by
    intro p q info info' hp hq haddr
    obtain ⟨hseed, hself⟩ | ⟨hseed, hmsg⟩ := h.source p info hp
    · obtain ⟨_, hself'⟩ | ⟨_, hmsg'⟩ := h.source q info' hq
      · rw [← hself, ← hself', haddr]
      · have hq' := hcoherent.seed _ hmsg' (Or.inr (haddr ▸ hself.symm ▸ hseed))
        rw [← hself, haddr]
        exact hq'.symm
    · obtain ⟨hseed', hself'⟩ | ⟨_, hmsg'⟩ := h.source q info' hq
      · have hp' := hcoherent.seed _ hmsg (Or.inr (haddr.symm ▸ hself'.symm ▸ hseed'))
        rw [← hself', ← haddr]
        exact hp'
      · exact (hcoherent.single _ hmsg _ hmsg').mpr haddr
  latest := by
    intro id addr hlatest
    have hmem := mem_of_latestFrom hlatest
    obtain ⟨_, info, hinfo, _⟩ := h.registered _ hmem
    refine ⟨info, hinfo, ?_⟩
    obtain ⟨hseed, hself⟩ | ⟨_, hmsg⟩ := h.source id info hinfo
    · rw [hself]
      exact hcoherent.seed _ hmem (Or.inl hseed)
    · exact (hcoherent.single _ hmsg _ hmem).mp rfl

/-- The table is faithful after every action of the run. -/
def FaithfulThroughout (seeds : List String) (as : List RegistryAction) : Prop :=
  ∀ pre post registry, as = pre ++ post → Machine.run step (new seeds) pre = some registry →
    registry.Faithful (handled pre)

theorem FaithfulThroughout.covers (h : FaithfulThroughout seeds as)
    (hrun : Machine.run step (new seeds) as = some registry) :
    ∀ msg ∈ handled as, registry.peers.Covers msg.1 msg.2 0 := by
  refine Machine.run_induction (P := fun as registry => FaithfulThroughout seeds as →
    ∀ msg ∈ handled as, registry.peers.Covers msg.1 msg.2 0) ?_ ?_ hrun h
  · intro _ msg hmsg
    exact absurd hmsg List.not_mem_nil
  · intro as t a u hrun ih hstep h msg hmsg
    rw [handled_concat, List.mem_append] at hmsg
    obtain hold | hnew := hmsg
    · have hfaithful : FaithfulThroughout seeds as := by
        intro pre post r has
        exact h pre (post ++ [a]) r (by rw [has, List.append_assoc])
      exact step_covers hstep (ih hfaithful msg hold)
    · cases a with
      | inbound fromNodeId fromGossipAddr =>
          obtain rfl : msg = (fromNodeId, fromGossipAddr) := by simpa [handled] using hnew
          have hfaithful := h _ [] u (List.append_nil _).symm
            (Machine.run_concat_eq_some.mpr ⟨t, hrun, hstep⟩)
          rw [handled_concat] at hfaithful
          obtain ⟨info, hinfo, haddr⟩ := hfaithful.latest _ _ (latestFrom_concat_self _ _ _)
          exact ⟨info, hinfo, haddr, Nat.zero_le _⟩
      | push peerId => exact absurd hnew List.not_mem_nil
      | ack i maxSentTs => exact absurd hnew List.not_mem_nil

theorem Faithful.key_eq {messages : List (String × String)} (h : registry.Faithful messages)
    {p q addr : String} {ts ts' : Nat} (hp : registry.peers.Covers p addr ts)
    (hq : registry.peers.Covers q addr ts') : p = q := by
  obtain ⟨info, hinfo, haddr, _⟩ := hp
  obtain ⟨info', hinfo', haddr', _⟩ := hq
  exact h.distinct p q info info' hinfo hinfo' (haddr.trans haddr'.symm)

/-- **When the peer table is a map of the remote nodes.** Over a whole run of a node the table stays
faithful if and only if what the senders announce is coherent with itself and with the seed list. -/
theorem faithful_iff_coherent (hrun : Machine.run step (new seeds) as = some registry) :
    FaithfulThroughout seeds as ↔ Coherent seeds (handled as) := by
  constructor
  · intro h
    have hcovers := h.covers hrun
    have hfaithful := h as [] registry (List.append_nil _).symm hrun
    have hseeded := (run_tracked hrun).seeded
    constructor
    · intro msg hmsg hseed
      obtain hid | haddr := hseed
      · exact (hseeded _ hid).addr_eq (hcovers msg hmsg)
      · exact hfaithful.key_eq (hcovers msg hmsg) (hseeded _ haddr)
    · intro msg hmsg msg' hmsg'
      constructor
      · intro hid
        have hcovers' := hcovers msg hmsg
        rw [hid] at hcovers'
        exact hcovers'.addr_eq (hcovers msg' hmsg')
      · intro haddr
        have hcovers' := hcovers msg hmsg
        rw [haddr] at hcovers'
        exact hfaithful.key_eq hcovers' (hcovers msg' hmsg')
  · intro h pre post r has hpre
    apply (run_tracked hpre).faithful
    apply h.of_subset
    rw [has, handled, handled, List.filterMap_append]
    exact List.subset_append_left _ _

theorem faithful_iff_coherent_one_seed :
    ∃ registry, Machine.run step (new ["10.0.0.2:7071"])
        [.push "10.0.0.2:7071", .inbound "node-c" "10.0.0.3:7071", .ack 0 5] = some registry
      ∧ registry.Faithful [("node-c", "10.0.0.3:7071")] := by
  have hcoherent : Coherent ["10.0.0.2:7071"] [("node-c", "10.0.0.3:7071")] := by
    constructor <;> simp [seedAddrs]
  refine ⟨_, rfl, ?_⟩
  exact (faithful_iff_coherent rfl).mpr hcoherent
    [.push "10.0.0.2:7071", .inbound "node-c" "10.0.0.3:7071", .ack 0 5] [] _ rfl rfl

end Registry

end StateSync
