import StateSync.Rpc.Server
import StateSync.State.Live

/-!
# The server with its connections

`run` accepts connections until the token is cancelled, and every connection is served by a task of
its own. They share the store, the channel and the peer table with each other and with the rest of
the node: a connection that takes a step does so with the store as it is by then.

The one request that writes does not do so at once. Its `dispatch` is a call of `set` like any
other: it is made, stores its entry and sends the event in a later step, between which anybody may
move; the connection goes on when the call has returned.
-/

namespace StateSync

structure Served where
  connection : Connection
  /-- The call of `set` that the connection waits for. -/
  calling : Option Nat

structure RpcServer where
  live : LiveStore
  capacity : Nat
  peers : PeerTable
  cancelled : Bool
  accepting : Bool
  connections : List Served

inductive ServerAction
  | store (a : StoreAction)
  | peers (peers : PeerTable)
  | accept (text : List Char)
  | connection (i : Nat) (a : ConnectionAction)
  | cancel
  | shutDown

/-- The key and the value of a request that writes. -/
def RpcRequest.setCall (req : RpcRequest) : Option (String × String) :=
  if req.method = "state.set" then do
    let key ← (req.params.get "key").bind Value.asStr
    let value ← (req.params.get "value").bind Value.asStr
    some (key, value)
  else none

namespace RpcServer

/-- The program does not start with a `capacity` of 0, since its `broadcast::channel` panics. -/
def new (nodeId : String) (capacity : Nat) : RpcServer where
  live := LiveStore.new nodeId
  capacity := capacity.nextPowerOfTwo
  peers := ∅
  cancelled := false
  accepting := true
  connections := []

/-- What every connection shares. -/
def handler (server : RpcServer) : RpcHandler where
  store := server.live.toStateStore
  events := { sent := server.live.events, capacity := server.capacity }
  peers := server.peers

/-- The connection has come back from its last call. -/
def hasReturned (server : RpcServer) (served : Served) : Bool :=
  served.calling.all fun call => server.live.tasks[call]?.all Task.isReturned

/-- Bytes arrive at any time. A connection moves when its call has returned, is cancelled when the
token is, and what the others do is not up to it. -/
def allows (server : RpcServer) (served : Served) : ConnectionAction → Bool
  | .arrive _ => true
  | .close => true
  | .cancel => server.hasReturned served && server.cancelled
  | .others _ _ _ => false
  | _ => server.hasReturned served

def lineCall (fromStr : String → Except String RpcRequest) (line : String) :
    Option (String × String) :=
  match fromStr line with
  | .ok req => req.setCall
  | .error _ => none

/-- The call of `set` in a step of a connection, which dispatches at most one line. -/
def setCall (fromStr : String → Except String RpcRequest) (c c' : Connection) :
    Option (String × String) :=
  (c'.dispatched.drop c.dispatched.length).head?.bind (lineCall fromStr)

/-- What a step of a connection does to the store: nothing, or a call of `set` is made and goes
through its critical section. -/
def perform (live : LiveStore) (now : Nat) : Option (String × String) → Option LiveStore
  | none => some live
  | some (key, value) =>
      Machine.run LiveStore.step live [.callSet key value now, .advance live.tasks.length]

def clock : ConnectionAction → Nat
  | .fill _ now _ => now
  | _ => 0

def step (fromStr : String → Except String RpcRequest) (server : RpcServer) :
    ServerAction → Option RpcServer
  | .store a => (server.live.step a).map fun live => { server with live := live }
  | .peers peers => some { server with peers := peers }
  | .accept text =>
      if server.accepting then
        some { server with connections := server.connections
          ++ [{ connection := Connection.new server.handler text, calling := none }] }
      else none
  | .connection i a => do
      let served ← server.connections[i]?
      if server.allows served a then
        let c := { served.connection with handler := server.handler }
        let c' ← c.step fromStr a
        let call := setCall fromStr c c'
        let live ← perform server.live (clock a) call
        some { server with
          live := live
          connections := server.connections.set i
            { connection := c'
              calling := (call.map fun _ => server.live.tasks.length).or served.calling } }
      else none
  | .cancel => some { server with cancelled := true }
  | .shutDown => if server.cancelled then some { server with accepting := false } else none

end RpcServer

end StateSync
