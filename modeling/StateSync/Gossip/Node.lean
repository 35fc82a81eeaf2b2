import StateSync.State.Live

/-!
# One gossip node

What the gossip manager of a node keeps and what its functions compute: the peer table with one
watermark per entry, the targets of a round, the message pushed to one target, and the two ways a
peer entry is updated. How the steps of several nodes interleave is in `Gossip.Cluster`.
-/

namespace StateSync

/-- What a node knows about a peer, to which it sends only entries newer than `lastSyncTs`. The
counter of exchanges is a `u64` of which the wrap is left out: there are fewer than `2 ^ 64`. -/
structure PeerInfo where
  gossipAddr : String
  lastSyncTs : Nat
  exchangeCount : Nat
deriving DecidableEq, Repr

namespace PeerInfo

def new (gossipAddr : String) : PeerInfo :=
  { gossipAddr := gossipAddr, lastSyncTs := 0, exchangeCount := 0 }

def recordExchange (syncTs : Nat) (info : PeerInfo) : PeerInfo :=
  { info with
    lastSyncTs := max info.lastSyncTs syncTs
    exchangeCount := info.exchangeCount + 1 }

/-- The peer pushed to us, which says nothing about what it has received from us. -/
def markSeen (info : PeerInfo) : PeerInfo :=
  { info with exchangeCount := info.exchangeCount + 1 }

end PeerInfo

/-- Entries are keyed by a seed address or by a sender's node id. -/
abbrev PeerTable := AList fun _ : String => PeerInfo

/-- `entry(key).or_insert_with(PeerInfo::new(addr))`, then an update of the entry. -/
def PeerTable.upsert (peers : PeerTable) (key addr : String) (f : PeerInfo → PeerInfo) :
    PeerTable :=
  peers.insert key (f ((peers.lookup key).getD (PeerInfo.new addr)))

/-- `GossipManager::new`: one entry for each seed address that is not empty. -/
def PeerTable.registerSeeds (peers : PeerTable) (seeds : List String) : PeerTable :=
  (seeds.filter fun addr => addr ≠ "").foldl (fun peers addr => peers.upsert addr addr id) peers

structure Config where
  nodeId : String
  host : String
  gossipPort : Nat
  seedPeers : List String
  gossipFanout : Nat
deriving DecidableEq, Repr

def Config.gossipAddr (config : Config) : String := config.host ++ ":" ++ toString config.gossipPort

/-! ### Messages -/

structure GossipMessage where
  fromNodeId : String
  fromGossipAddr : String
  deltas : StateDelta
  generation : Nat
deriving DecidableEq, Repr

structure GossipAck where
  fromNodeId : String
  mergedCount : Nat
deriving DecidableEq, Repr

/-- The highest timestamp in the delta that is about to be sent, 0 for an introduction. -/
def maxSentTs (delta : StateDelta) : Nat := (delta.map fun entry => entry.2.timestamp).max?.getD 0

/-! ### A round -/

/-- Step 1 of `gossip_round`: the table as the iteration yielded it, shuffled, cut to the fanout. -/
def gossipTargets (fanout : Nat) (shuffled : List (String × PeerInfo)) :
    List (String × PeerInfo) :=
  shuffled.take (min fanout shuffled.length)

/-- Step 2 of `gossip_round` for one target: nothing when there is no delta for a known peer, else
the message and the timestamp its acknowledgement will stand for. -/
def buildPush (nodeId gossipAddr : String) (gen : Nat) (info : PeerInfo) (delta : StateDelta) :
    Option (GossipMessage × Nat) :=
  if delta = [] ∧ info.exchangeCount > 0 then none
  else some ({ fromNodeId := nodeId, fromGossipAddr := gossipAddr, deltas := delta,
               generation := gen }, maxSentTs delta)

/-- Where the scheduler is. While it iterates over the peer table the entries can change, and new
ones can be missed, but every key that was there at the start is yielded. -/
inductive RoundPc
  | idle
  | scanning (due : List String) (yielded : List (String × PeerInfo))
  | sending (gen : Nat) (targets : List (String × PeerInfo))
deriving DecidableEq, Repr

def RoundPc.copies : RoundPc → List (String × PeerInfo)
  | .idle => []
  | .scanning _ yielded => yielded
  | .sending _ targets => targets

/-- The counter of rounds is a `u64` of which the wrap is left out as well. -/
structure Node where
  live : LiveStore
  peers : PeerTable
  generation : Nat
  round : RoundPc

def Node.new (config : Config) : Node where
  live := LiveStore.new config.nodeId
  peers := PeerTable.registerSeeds ∅ config.seedPeers
  generation := 0
  round := .idle

/-! ### Facts about the table -/

theorem PeerTable.lookup_upsert_self (peers : PeerTable) (key addr : String)
    (f : PeerInfo → PeerInfo) : (peers.upsert key addr f).lookup key
      = some (f ((peers.lookup key).getD (PeerInfo.new addr))) := by
  simp [upsert]

theorem PeerTable.lookup_upsert_of_ne {peers : PeerTable} {key k addr : String}
    {f : PeerInfo → PeerInfo} (hne : k ≠ key) :
    (peers.upsert key addr f).lookup k = peers.lookup k :=
  AList.lookup_insert_ne hne

theorem PeerTable.lookup_upsert_cases {peers : PeerTable} {key addr p : String}
    {f : PeerInfo → PeerInfo} {info' : PeerInfo}
    (h : (peers.upsert key addr f).lookup p = some info') :
    (∃ info, peers.lookup p = some info ∧ (info' = info ∨ p = key ∧ info' = f info))
      ∨ (p = key ∧ peers.lookup p = none ∧ info' = f (PeerInfo.new addr)) := by
  by_cases hp : p = key
  · subst hp
    rw [lookup_upsert_self, Option.some.injEq] at h
    cases hinfo : peers.lookup p with
    | none => exact Or.inr ⟨rfl, rfl, by rw [← h, hinfo, Option.getD_none]⟩
    | some info => exact Or.inl ⟨info, rfl, Or.inr ⟨rfl, by rw [← h, hinfo, Option.getD_some]⟩⟩
  · rw [lookup_upsert_of_ne hp] at h
    exact Or.inl ⟨info', h, Or.inl rfl⟩

theorem PeerTable.gossipAddr_upsert {peers : PeerTable} {key addr p : String}
    {f : PeerInfo → PeerInfo} {info' : PeerInfo}
    (h : (peers.upsert key addr f).lookup p = some info')
    (hf : ∀ info, (f info).gossipAddr = info.gossipAddr) :
    (∃ info, peers.lookup p = some info ∧ info'.gossipAddr = info.gossipAddr)
      ∨ (p = key ∧ peers.lookup p = none ∧ info'.gossipAddr = addr) := by
  obtain ⟨info, hinfo, hsame⟩ | ⟨hp, hnone, rfl⟩ := lookup_upsert_cases h
  · obtain rfl | ⟨_, rfl⟩ := hsame
    · exact Or.inl ⟨info', hinfo, rfl⟩
    · exact Or.inl ⟨info, hinfo, hf info⟩
  · exact Or.inr ⟨hp, hnone, hf _⟩

theorem PeerTable.lastSyncTs_registerSeeds {peers : PeerTable} {seeds : List String} {p : String}
    {info : PeerInfo} (hpeers : ∀ p info, peers.lookup p = some info → info.lastSyncTs = 0)
    (hinfo : (peers.registerSeeds seeds).lookup p = some info) : info.lastSyncTs = 0 := by
  unfold registerSeeds at hinfo
  generalize seeds.filter (fun addr => addr ≠ "") = addrs at hinfo
  induction addrs generalizing peers with
  | nil => exact hpeers p info hinfo
  | cons addr rest ih =>
      refine ih ?_ hinfo
      intro q qinfo hq
      by_cases hqa : q = addr
      · subst hqa
        rw [lookup_upsert_self, Option.some.injEq] at hq
        subst hq
        cases hlookup : peers.lookup q with
        | none => rfl
        | some old => exact hpeers q old hlookup
      · rw [lookup_upsert_of_ne hqa] at hq
        exact hpeers q qinfo hq

theorem le_maxSentTs {delta : StateDelta} {k : String} {v : LwwValue} (hmem : (k, v) ∈ delta) :
    v.timestamp ≤ maxSentTs delta :=
  max?_timestamp_le_iff.mp le_rfl k v hmem

theorem exists_mem_maxSentTs {delta : StateDelta} (hne : delta ≠ []) :
    ∃ k v, (k, v) ∈ delta ∧ maxSentTs delta = v.timestamp := by
  unfold maxSentTs
  cases hmax : (delta.map fun entry => entry.2.timestamp).max? with
  | none => exact absurd (List.map_eq_nil_iff.mp (List.max?_eq_none_iff.mp hmax)) hne
  | some ts =>
      obtain ⟨⟨k, v⟩, hentry, rfl⟩ := List.mem_map.mp (List.max?_eq_some_iff.mp hmax).1
      exact ⟨k, v, hentry, rfl⟩

theorem maxSentTs_le {delta : StateDelta} {m : Nat} (h : ∀ k v, (k, v) ∈ delta → v.timestamp ≤ m) :
    maxSentTs delta ≤ m :=
  max?_timestamp_le_iff.mpr h

theorem maxSentTs_of_mem_iff {delta delta₁ delta₂ : StateDelta}
    (h : ∀ entry, entry ∈ delta ↔ entry ∈ delta₁ ∨ entry ∈ delta₂) :
    maxSentTs delta = max (maxSentTs delta₁) (maxSentTs delta₂) := by
  apply le_antisymm
  · apply maxSentTs_le
    intro k v hv
    obtain hv | hv := (h (k, v)).mp hv
    · exact le_max_of_le_left (le_maxSentTs hv)
    · exact le_max_of_le_right (le_maxSentTs hv)
  · apply max_le
    · exact maxSentTs_le fun k v hv => le_maxSentTs ((h (k, v)).mpr (Or.inl hv))
    · exact maxSentTs_le fun k v hv => le_maxSentTs ((h (k, v)).mpr (Or.inr hv))

end StateSync
