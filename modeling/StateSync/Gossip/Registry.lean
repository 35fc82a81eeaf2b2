import StateSync.Gossip.Node
import StateSync.Lib.Machine

/-!
# The peer table of a running node

What changes the table between two starts of a node, whoever it talks to: the sender of an inbound
message is registered, and the acknowledgement of a push is recorded. A push names the entry its
round copied. Nothing else touches the table, and nothing removes an entry.
-/

namespace StateSync

/-- The table, and the key and address each push so far was started with. -/
structure Registry where
  peers : PeerTable
  pushes : List (String × String)

inductive RegistryAction
  | inbound (fromNodeId fromGossipAddr : String)
  | push (peerId : String)
  | ack (i maxSentTs : Nat)
deriving DecidableEq, Repr

namespace Registry

def new (seeds : List String) : Registry where
  peers := PeerTable.registerSeeds ∅ seeds
  pushes := []

def step (registry : Registry) : RegistryAction → Option Registry
  | .inbound fromNodeId fromGossipAddr =>
      some { registry with
        peers := registry.peers.upsert fromNodeId fromGossipAddr PeerInfo.markSeen }
  | .push peerId => do
      let info ← registry.peers.lookup peerId
      some { registry with pushes := registry.pushes ++ [(peerId, info.gossipAddr)] }
  | .ack i maxSentTs => do
      let (peerId, peerAddr) ← registry.pushes[i]?
      some { registry with
        peers := registry.peers.upsert peerId peerAddr (PeerInfo.recordExchange maxSentTs) }

/-- The node ids and addresses of the messages that were handled, in order. -/
def handled (as : List RegistryAction) : List (String × String) :=
  as.filterMap fun
    | .inbound fromNodeId fromGossipAddr => some (fromNodeId, fromGossipAddr)
    | _ => none

/-- The address in the latest of the messages from a node. -/
def latestFrom (messages : List (String × String)) (id : String) : Option String :=
  ((messages.filter fun msg => msg.1 = id).map Prod.snd).getLast?

end Registry

end StateSync
