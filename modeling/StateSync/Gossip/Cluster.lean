import StateSync.Gossip.Node

/-!
# The cluster

Nodes, and the exchanges between them. An exchange is one spawned send task together with the
connection it opens: the sender waits for the acknowledgement and may give up at any time, and the
receiver, independently of it, reads the message, merges it, registers the sender and writes the
acknowledgement. Messages and acknowledgements are lost at will. Exchanges are never removed from
the list, so a state also tells which messages were acknowledged.
-/

namespace StateSync

/-- The static part of a cluster: each node's configuration, and the node that listens at an
address, if any. -/
structure Network (ι : Type) where
  config : ι → Config
  resolve : String → Option ι

def Network.ids {ι : Type} (net : Network ι) (n : ι) : String := (net.config n).nodeId

inductive SendPc
  | waiting
  | acked
  | failed
deriving DecidableEq, Repr

inductive RecvPc (ι : Type)
  | inFlight
  | merging (receiver : ι) (task : Nat)
  | registered (receiver : ι) (merged : Nat)
  | acked (ack : GossipAck)
  | closed
deriving DecidableEq, Repr

structure Exchange (ι : Type) where
  sender : ι
  peerId : String
  peerAddr : String
  msg : GossipMessage
  maxSentTs : Nat
  send : SendPc
  recv : RecvPc ι
deriving DecidableEq, Repr

/-- An exchange as the restart of node `n` leaves it: its tasks are gone, what is on the network may
still arrive. -/
def Exchange.afterRestart {ι : Type} [DecidableEq ι] (n : ι) (ex : Exchange ι) : Exchange ι :=
  { ex with
    send := if ex.sender = n ∧ ex.send = .waiting then .failed else ex.send
    recv := match ex.recv with
      | .merging r task => if r = n then .closed else .merging r task
      | .registered r merged => if r = n then .closed else .registered r merged
      | recv => recv }

structure Cluster (ι : Type) where
  nodes : ι → Node
  exchanges : List (Exchange ι)

/-- A `set` is called and draws its timestamp (`callSet`), and a `set` or `merge_delta` takes its
next step (`advance`). A round iterates over the peer table (`beginRound`, `scanPeer`), shuffles
what the iteration yielded (`startRound`) and handles one target after the other (`sendNext`, with
the delta in the order of its own iteration). The receiver of exchange `x` has read the message and
calls `merge_delta` (`accept`), registers the sender (`register`) and acknowledges (`writeAck`); the
sending task sees the acknowledgement (`recvAck`) or gives up, because the connection was refused or
broke or the time is over (`failSend`). What is on the network can be lost (`lose`), and a node can
stop and start again with an empty store (`restart`). -/
inductive Action (ι : Type)
  | callSet (n : ι) (key value : String) (now : Nat)
  | advance (n : ι) (task : Nat)
  | beginRound (n : ι)
  | scanPeer (n : ι) (peerId : String)
  | startRound (n : ι) (shuffled : List (String × PeerInfo))
  | sendNext (n : ι) (delta : StateDelta)
  | accept (x : Nat)
  | register (x : Nat)
  | writeAck (x : Nat)
  | recvAck (x : Nat)
  | failSend (x : Nat)
  | lose (x : Nat)
  | restart (n : ι)
deriving DecidableEq

def Action.setAlone {ι : Type} (n : ι) (key value : String) (now i : Nat) : List (Action ι) :=
  [.callSet n key value now, .advance n i, .advance n i]

/-- The steps of a round with one target that nobody interrupts. The target comes first out of the
shuffle, the push is exchange `x`, and its merge is task `i` of node `r` and takes `k` steps. -/
def Action.roundAlone {ι : Type} (n : ι) (shuffled : List (String × PeerInfo)) (delta : StateDelta)
    (x : Nat) (r : ι) (i k : Nat) : List (Action ι) :=
  [.beginRound n] ++ shuffled.map (fun entry => .scanPeer n entry.1)
    ++ [.startRound n shuffled, .sendNext n delta, .accept x] ++ List.replicate k (.advance r i)
    ++ [.register x, .writeAck x, .recvAck x]

namespace Cluster

variable {ι : Type} [DecidableEq ι]

def init (net : Network ι) : Cluster ι where
  nodes := fun n => Node.new (net.config n)
  exchanges := []

def setNode (c : Cluster ι) (n : ι) (node : Node) : Cluster ι :=
  { c with nodes := Function.update c.nodes n node }

def setExchange (c : Cluster ι) (x : Nat) (ex : Exchange ι) : Cluster ι :=
  { c with exchanges := c.exchanges.set x ex }

def storeStep (c : Cluster ι) (n : ι) (a : StoreAction) : Option (Cluster ι) :=
  ((c.nodes n).live.step a).map fun live => c.setNode n { c.nodes n with live := live }

def step (net : Network ι) (c : Cluster ι) : Action ι → Option (Cluster ι)
  | .callSet n key value now => c.storeStep n (.callSet key value now)
  | .advance n task => c.storeStep n (.advance task)
  | .beginRound n =>
      let node := c.nodes n
      match node.round with
      | .idle => some (c.setNode n { node with
          round := .scanning (node.peers.entries.map Sigma.fst) [] })
      | _ => none
  | .scanPeer n peerId => do
      let node := c.nodes n
      let info ← node.peers.lookup peerId
      match node.round with
      | .scanning due yielded =>
          if peerId ∈ yielded.map Prod.fst then none
          else some (c.setNode n { node with
            round := .scanning due (yielded ++ [(peerId, info)]) })
      | _ => none
  | .startRound n shuffled =>
      let node := c.nodes n
      match node.round with
      | .scanning due yielded =>
          if due ⊆ yielded.map Prod.fst ∧ shuffled.Perm yielded then
            match gossipTargets (net.config n).gossipFanout shuffled with
            | [] => some (c.setNode n { node with round := .idle })
            | targets => some (c.setNode n { node with
                generation := node.generation + 1
                round := .sending node.generation targets })
          else none
      | _ => none
  | .sendNext n delta =>
      let node := c.nodes n
      match node.round with
      | .sending gen ((peerId, info) :: rest) =>
          if delta.Perm (node.live.deltaSince info.lastSyncTs) then
            let c' := c.setNode n { node with
              round := if rest = [] then .idle else .sending gen rest }
            match buildPush node.live.nodeId (net.config n).gossipAddr gen info delta with
            | none => some c'
            | some (msg, maxSentTs) =>
                some { c' with exchanges := c'.exchanges ++ [
                  { sender := n, peerId := peerId, peerAddr := info.gossipAddr, msg := msg,
                    maxSentTs := maxSentTs, send := .waiting, recv := .inFlight }] }
          else none
      | _ => none
  | .accept x => do
      let ex ← c.exchanges[x]?
      let r ← net.resolve ex.peerAddr
      if ex.recv = .inFlight then
        let c' ← c.storeStep r (.callMerge ex.msg.deltas)
        some (c'.setExchange x { ex with recv := .merging r (c.nodes r).live.tasks.length })
      else none
  | .register x => do
      let ex ← c.exchanges[x]?
      match ex.recv with
      | .merging r task =>
          let node := c.nodes r
          match node.live.tasks[task]? with
          | some (.merge _ (.returned updated)) =>
              let peers :=
                node.peers.upsert ex.msg.fromNodeId ex.msg.fromGossipAddr PeerInfo.markSeen
              some ((c.setNode r { node with peers := peers }).setExchange x
                { ex with recv := .registered r updated.length })
          | _ => none
      | _ => none
  | .writeAck x => do
      let ex ← c.exchanges[x]?
      match ex.recv with
      | .registered r merged =>
          some (c.setExchange x { ex with
            recv := .acked { fromNodeId := (c.nodes r).live.nodeId, mergedCount := merged } })
      | _ => none
  | .recvAck x => do
      let ex ← c.exchanges[x]?
      match ex.send, ex.recv with
      | .waiting, .acked _ =>
          let node := c.nodes ex.sender
          let peers :=
            node.peers.upsert ex.peerId ex.peerAddr (PeerInfo.recordExchange ex.maxSentTs)
          some ((c.setNode ex.sender { node with peers := peers }).setExchange x
            { ex with send := .acked, recv := .closed })
      | _, _ => none
  | .failSend x => do
      let ex ← c.exchanges[x]?
      if ex.send = .waiting then some (c.setExchange x { ex with send := .failed }) else none
  | .lose x => do
      let ex ← c.exchanges[x]?
      match ex.recv with
      | .merging _ _ => none
      | _ => some (c.setExchange x { ex with recv := .closed })
  | .restart n =>
      some { nodes := Function.update c.nodes n (Node.new (net.config n))
             exchanges := c.exchanges.map (Exchange.afterRestart n) }

def get (c : Cluster ι) (n : ι) (k : String) : Option LwwValue := (c.nodes n).live.get k

def Dominates (c : Cluster ι) (n : ι) (k : String) (v : LwwValue) : Prop :=
  (c.nodes n).live.state.Dominates k v

end Cluster

/-- Two nodes, of which the first knows the other's address. -/
def twoNodes : Network Bool where
  config := fun n =>
    if n then { nodeId := "node-b", host := "10.0.0.2", gossipPort := 7071, seedPeers := [],
                gossipFanout := 1 }
    else { nodeId := "node-a", host := "10.0.0.1", gossipPort := 7071,
           seedPeers := ["10.0.0.2:7071"], gossipFanout := 1 }
  resolve := fun addr =>
    if addr = "10.0.0.1:7071" then some false
    else if addr = "10.0.0.2:7071" then some true
    else none

theorem twoNodes_ids_injective : Function.Injective twoNodes.ids := by
  intro a b
  cases a <;> cases b <;> simp [Network.ids, twoNodes]

end StateSync
