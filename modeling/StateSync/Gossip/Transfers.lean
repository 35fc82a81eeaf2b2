import StateSync.Gossip.Cluster
import StateSync.Gossip.Protocol

/-!
# Gossip over byte streams

The cluster with its connections spelled out. The sender puts its frame on the stream byte by byte,
the receiver fills the buffers of `read_message` from what has arrived, and the acknowledgement
comes back the same way. Either end can stop in the middle. How the system cuts the stream into
reads and writes is the order of the single bytes here.
-/

namespace StateSync

open Wire

/-- Where `read_message` is: filling the four bytes of the length, or a payload of that length. -/
inductive Reader
  | length (buffer : Bytes)
  | payload (len : Nat) (buffer : Bytes)
deriving DecidableEq, Repr

inductive Progress (T : Type)
  | more (reader : Reader)
  | message (msg : T)
  | failed (e : String)
deriving DecidableEq, Repr

def Reader.start : Reader := .length []

section

variable {T : Type} (bincode : Bincode T)

/-- The buffer of the payload is decoded when it is full, at once for an empty payload. -/
def Reader.fill (len : Nat) (buffer : Bytes) : Progress T :=
  if buffer.length < len then .more (.payload len buffer)
  else
    match bincode.deserialize buffer with
    | .error e => .failed ("gossip decode: " ++ e)
    | .ok msg => .message msg

def Reader.push : Reader → UInt8 → Progress T
  | .length buffer, byte =>
      let lenBuf := buffer ++ [byte]
      if lenBuf.length < 4 then .more (.length lenBuf)
      else
        let len := (fromBeBytes lenBuf).toNat
        if len > maxMessageBytes then
          .failed ("gossip message too large: " ++ toString len ++ " bytes (max "
            ++ toString maxMessageBytes ++ ")")
        else Reader.fill bincode len []
  | .payload len buffer, byte => Reader.fill bincode len (buffer ++ [byte])

/-- What the reader makes of the bytes that arrive, and those it leaves on the stream. -/
def Progress.feed : Progress T → Bytes → Progress T × Bytes
  | .more reader, byte :: rest => (reader.push bincode byte).feed rest
  | progress, rest => (progress, rest)

/-- What `read_message` returns when no more bytes come. -/
def Progress.result {T : Type} : Progress T × Bytes → Except String (T × Bytes)
  | (.more _, _) => .error "early eof"
  | (.message msg, rest) => .ok (msg, rest)
  | (.failed e, _) => .error e

end

/-! ### Connections -/

/-- What the task of `send_and_ack` is doing. -/
inductive SendTask
  | connecting
  | writing (left : Bytes)
  | reading (reader : Reader)
  | acked
  | failed
deriving DecidableEq, Repr

/-- What the task of `handle_inbound` is doing, once the listener has accepted the connection. -/
inductive RecvTask (ι : Type)
  | listening
  | reading (receiver : ι) (reader : Reader)
  | merging (receiver : ι) (msg : GossipMessage) (task : Nat)
  | registered (receiver : ι) (merged : Nat)
  | writing (receiver : ι) (ack : GossipAck) (left : Bytes)
  | done (ack : GossipAck)
  | failed
deriving DecidableEq, Repr

/-- A push and its connection. The bytes of `request` and `response` are written and not read
yet. -/
structure Transfer (ι : Type) where
  sender : ι
  peerId : String
  peerAddr : String
  msg : GossipMessage
  maxSentTs : Nat
  send : SendTask
  recv : RecvTask ι
  request : Bytes
  response : Bytes
deriving DecidableEq, Repr

def Transfer.start {ι : Type} (ex : Exchange ι) : Transfer ι where
  sender := ex.sender
  peerId := ex.peerId
  peerAddr := ex.peerAddr
  msg := ex.msg
  maxSentTs := ex.maxSentTs
  send := .connecting
  recv := .listening
  request := []
  response := []

def SendTask.running : SendTask → Bool
  | .connecting | .writing _ | .reading _ => true
  | .acked | .failed => false

/-- The node whose task has the connection open at the receiving end. -/
def RecvTask.receiver? {ι : Type} : RecvTask ι → Option ι
  | .reading r _ | .merging r _ _ | .registered r _ | .writing r _ _ => some r
  | .listening | .done _ | .failed => none

/-- The restart of node `n` ends its tasks. -/
def Transfer.afterRestart {ι : Type} [DecidableEq ι] (n : ι) (t : Transfer ι) : Transfer ι :=
  { t with
    send := if t.sender = n ∧ t.send.running then .failed else t.send
    recv := if t.recv.receiver? = some n then .failed else t.recv }

structure Codecs where
  message : Bincode GossipMessage
  ack : Bincode GossipAck

structure Codecs.Lawful (codecs : Codecs) : Prop where
  message : codecs.message.Lawful
  ack : codecs.ack.Lawful

structure WireCluster (ι : Type) where
  nodes : ι → Node
  transfers : List (Transfer ι)

/-- A step of a node that is not about a connection (`node`); the connection of transfer `x` is
opened, and the frame goes out byte by byte (`connect`, `writeByte`); the receiver reads it and
calls `merge_delta` with what it has read (`readByte`), registers the sender, and writes its
acknowledgement (`register`, `writeAck`, `writeAckByte`); the sender reads that (`readAckByte`).
Either end can break off, because the connection was refused, closed or too slow (`failSend`,
`failRecv`). -/
inductive WireAction (ι : Type)
  | node (a : Action ι)
  | restart (n : ι)
  | connect (x : Nat)
  | writeByte (x : Nat)
  | readByte (x : Nat)
  | register (x : Nat)
  | writeAck (x : Nat)
  | writeAckByte (x : Nat)
  | readAckByte (x : Nat)
  | failSend (x : Nat)
  | failRecv (x : Nat)
deriving DecidableEq

namespace WireCluster

variable {ι : Type} [DecidableEq ι]

def init (net : Network ι) : WireCluster ι where
  nodes := fun n => Node.new (net.config n)
  transfers := []

def setNode (w : WireCluster ι) (n : ι) (node : Node) : WireCluster ι :=
  { w with nodes := Function.update w.nodes n node }

def setTransfer (w : WireCluster ι) (x : Nat) (t : Transfer ι) : WireCluster ι :=
  { w with transfers := w.transfers.set x t }

def step (net : Network ι) (codecs : Codecs) (w : WireCluster ι) :
    WireAction ι → Option (WireCluster ι)
  | .node (.restart _) => none
  | .node a => do
      let c ← Cluster.step net { nodes := w.nodes, exchanges := [] } a
      some { nodes := c.nodes, transfers := w.transfers ++ c.exchanges.map Transfer.start }
  | .restart n =>
      some { nodes := Function.update w.nodes n (Node.new (net.config n))
             transfers := w.transfers.map (Transfer.afterRestart n) }
  | .connect x => do
      let t ← w.transfers[x]?
      let r ← net.resolve t.peerAddr
      if t.send = .connecting then
        some (w.setTransfer x { t with
          send := match writeMessage codecs.message t.msg with
            | .ok frame => .writing frame
            | .error _ => .failed
          recv := .reading r Reader.start })
      else none
  | .writeByte x => do
      let t ← w.transfers[x]?
      match t.send with
      | .writing (byte :: left) =>
          some (w.setTransfer x { t with
            send := if left = [] then .reading Reader.start else .writing left
            request := t.request ++ [byte] })
      | _ => none
  | .readByte x => do
      let t ← w.transfers[x]?
      match t.recv, t.request with
      | .reading r reader, byte :: request =>
          let t' := { t with request := request }
          match reader.push codecs.message byte with
          | .more reader => some (w.setTransfer x { t' with recv := .reading r reader })
          | .failed _ => some (w.setTransfer x { t' with recv := .failed })
          | .message msg =>
              let node := w.nodes r
              let live ← node.live.step (.callMerge msg.deltas)
              some ((w.setNode r { node with live := live }).setTransfer x
                { t' with recv := .merging r msg node.live.tasks.length })
      | _, _ => none
  | .register x => do
      let t ← w.transfers[x]?
      match t.recv with
      | .merging r msg task =>
          let node := w.nodes r
          match node.live.tasks[task]? with
          | some (.merge _ (.returned updated)) =>
              let peers :=
                node.peers.upsert msg.fromNodeId msg.fromGossipAddr PeerInfo.markSeen
              some ((w.setNode r { node with peers := peers }).setTransfer x
                { t with recv := .registered r updated.length })
          | _ => none
      | _ => none
  | .writeAck x => do
      let t ← w.transfers[x]?
      match t.recv with
      | .registered r merged =>
          let ack : GossipAck :=
            { fromNodeId := (w.nodes r).live.nodeId, mergedCount := merged }
          some (w.setTransfer x { t with
            recv := match writeMessage codecs.ack ack with
              | .ok frame => .writing r ack frame
              | .error _ => .failed })
      | _ => none
  | .writeAckByte x => do
      let t ← w.transfers[x]?
      match t.recv with
      | .writing r ack (byte :: left) =>
          some (w.setTransfer x { t with
            recv := if left = [] then .done ack else .writing r ack left
            response := t.response ++ [byte] })
      | _ => none
  | .readAckByte x => do
      let t ← w.transfers[x]?
      match t.send, t.response with
      | .reading reader, byte :: response =>
          let t' := { t with response := response }
          match reader.push codecs.ack byte with
          | .more reader => some (w.setTransfer x { t' with send := .reading reader })
          | .failed _ => some (w.setTransfer x { t' with send := .failed })
          | .message _ =>
              let node := w.nodes t.sender
              let peers :=
                node.peers.upsert t.peerId t.peerAddr (PeerInfo.recordExchange t.maxSentTs)
              some ((w.setNode t.sender { node with peers := peers }).setTransfer x
                { t' with send := .acked })
      | _, _ => none
  | .failSend x => do
      let t ← w.transfers[x]?
      if t.send.running then some (w.setTransfer x { t with send := .failed }) else none
  | .failRecv x => do
      let t ← w.transfers[x]?
      match t.recv with
      | .reading _ _ | .writing _ _ _ => some (w.setTransfer x { t with recv := .failed })
      | _ => none

end WireCluster

end StateSync
