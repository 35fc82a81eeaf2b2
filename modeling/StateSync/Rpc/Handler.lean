import StateSync.Gossip.Node
import StateSync.Lib.Broadcast
import StateSync.Rpc.Types

/-!
# Dispatching a request

`RpcHandler` with every method it serves, each as the source performs it against the store and the
peer table. The JSON library is a parameter: `fromStr` is what deserializing a line gives.
-/

namespace StateSync

open Broadcast

/-- The store with the channel it broadcasts on, and the peer table shared with the gossip manager.
-/
structure RpcHandler where
  store : StateStore
  events : Channel StateEvent
  peers : PeerTable

inductive DispatchResult
  | response (reply : Outgoing)
  | subscribed (initialResponse : Outgoing) (receiver : Receiver) (subPrefix : Option String)
  | notification

def requiredStr (params : Value) (field : String) (id : Value) : Except Outgoing String :=
  match (params.get field).bind Value.asStr with
  | some s => .ok s
  | none => .error (.error (RpcError.new ErrorCodes.invalidParams
      ("Missing required param: \"" ++ field ++ "\"") id))

namespace RpcHandler

/-! ### Methods -/

def handleStateGet (handler : RpcHandler) (params id : Value) : Outgoing :=
  match requiredStr params "key" id with
  | .error e => e
  | .ok key =>
      let result := match handler.store.get key with
        | some v => .ofEntry key v
        | none => .null
      .response (RpcResponse.ok result id)

/-- The one method that writes. Both parameters are checked before the store is touched. -/
def handleStateSet (now : Nat) (handler : RpcHandler) (params id : Value) : RpcHandler × Outgoing :=
  match requiredStr params "key" id with
  | .error e => (handler, e)
  | .ok key =>
      match requiredStr params "value" id with
      | .error e => (handler, e)
      | .ok value =>
          let (store, lww, event) := handler.store.set now key value
          ({ handler with store := store, events := handler.events.send [event] },
            .response (RpcResponse.ok (.object [("timestamp", .ofNat lww.timestamp),
              ("node_id", .string lww.nodeId)]) id))

def handleSubscribe (handler : RpcHandler) (params id : Value) : DispatchResult :=
  let subPrefix := (params.get "prefix").bind Value.asStr
  let receiver := handler.events.subscribe
  let initialResponse := .response (RpcResponse.ok
    (.object [("status", .string "subscribed"), ("prefix", .ofOption subPrefix)]) id)
  .subscribed initialResponse receiver subPrefix

def handleStateKeys (handler : RpcHandler) (id : Value) : Outgoing :=
  let keys := handler.store.snapshot.map fun entry => Value.string entry.1
  .response (RpcResponse.ok
    (.object [("keys", .array keys), ("count", .ofNat keys.length)]) id)

/-- `lastSeenSecs` is the age of each peer entry, which the clock gives. -/
def handleNodePeers (lastSeenSecs : String → Nat) (handler : RpcHandler) (id : Value) : Outgoing :=
  let peers := handler.peers.entries.map fun entry => Value.object
    [("id", .string entry.1), ("addr", .string entry.2.gossipAddr),
      ("last_seen_secs", .ofNat (lastSeenSecs entry.1)),
      ("exchange_count", .ofNat entry.2.exchangeCount),
      ("last_sync_ts", .ofNat entry.2.lastSyncTs)]
  .response (RpcResponse.ok
    (.object [("peers", .array peers), ("count", .ofNat peers.length)]) id)

def handleSyncStatus (handler : RpcHandler) (id : Value) : Outgoing :=
  .response (RpcResponse.ok
    (.object [("node_id", .string handler.store.nodeId), ("state_size", .ofNat handler.store.len),
      ("max_timestamp", .ofNat handler.store.maxTimestamp),
      ("peer_count", .ofNat handler.peers.entries.length)]) id)

def handleSyncDelta (handler : RpcHandler) (params id : Value) : Outgoing :=
  let since := ((params.get "since").bind Value.asU64).getD 0
  let entries := (handler.store.deltaSince since).map fun entry => Value.ofEntry entry.1 entry.2
  .response (RpcResponse.ok
    (.object [("entries", .array entries), ("count", .ofNat entries.length)]) id)

/-! ### Dispatch -/

def dispatch (fromStr : String → Except String RpcRequest) (now : Nat) (lastSeenSecs : String → Nat)
    (handler : RpcHandler) (raw : String) : RpcHandler × DispatchResult :=
  match fromStr raw with
  | .error e =>
      (handler, .response (.error (RpcError.new ErrorCodes.parseError e .null)))
  | .ok req =>
      let isNotification := req.id.isNone
      let id := req.id.getD .null
      -- a subscription returns before the test for a notification
      if req.method = "state.subscribe" then
        (handler, handler.handleSubscribe req.params id)
      else
        let (handler', reply) : RpcHandler × Outgoing := match req.method with
          | "state.get" => (handler, handler.handleStateGet req.params id)
          | "state.set" => handler.handleStateSet now req.params id
          | "state.keys" => (handler, handler.handleStateKeys id)
          | "node.peers" => (handler, handler.handleNodePeers lastSeenSecs id)
          | "sync.status" => (handler, handler.handleSyncStatus id)
          | "sync.delta" => (handler, handler.handleSyncDelta req.params id)
          | other => (handler, .error (RpcError.new ErrorCodes.methodNotFound
              ("Method not found: " ++ other) id))
        (handler', if isNotification then .notification else .response reply)

end RpcHandler

end StateSync
