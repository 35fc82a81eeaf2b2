import StateSync.Gossip.Cluster
import StateSync.Rpc.Connections

/-!
# The engine

What `main` puts together on every node: one store and one peer table, which the gossip manager and
the RPC server share. The gossip manager writes the peer table, and the server reads it for
`node.peers`. The only callers of `set` are the connections.

The token that `main` cancels stops the accept loop and the connections here. It also stops the
gossip scheduler, which is a scheduler that begins no round any more.
-/

namespace StateSync

/-- What the RPC server does not share with the gossip manager. -/
structure Frontend where
  capacity : Nat
  cancelled : Bool
  accepting : Bool
  connections : List Served

/-- The program does not start with a `capacity` of 0, since its `broadcast::channel` panics. -/
def Frontend.new (capacity : Nat) : Frontend where
  capacity := capacity.nextPowerOfTwo
  cancelled := false
  accepting := true
  connections := []

def RpcServer.frontend (server : RpcServer) : Frontend where
  capacity := server.capacity
  cancelled := server.cancelled
  accepting := server.accepting
  connections := server.connections

/-- The network, the capacity of each node's event channel, and the parser of the requests. -/
structure Deployment (ι : Type) where
  net : Network ι
  capacity : ι → Nat
  fromStr : String → Except String RpcRequest

structure Engine (ι : Type) where
  cluster : Cluster ι
  frontends : ι → Frontend

/-- A step of the stores, of gossip or of the network, and a step of the RPC server of one node. The
restart of a node is both. -/
inductive EngineAction (ι : Type)
  | gossip (a : Action ι)
  | rpc (n : ι) (a : ServerAction)

namespace Engine

variable {ι : Type} [DecidableEq ι]

def init (dep : Deployment ι) : Engine ι where
  cluster := Cluster.init dep.net
  frontends := fun n => Frontend.new (dep.capacity n)

def server (e : Engine ι) (n : ι) : RpcServer where
  live := (e.cluster.nodes n).live
  capacity := (e.frontends n).capacity
  peers := (e.cluster.nodes n).peers
  cancelled := (e.frontends n).cancelled
  accepting := (e.frontends n).accepting
  connections := (e.frontends n).connections

def step (dep : Deployment ι) (e : Engine ι) : EngineAction ι → Option (Engine ι)
  | .gossip (.callSet _ _ _ _) => none
  | .gossip (.restart n) =>
      (e.cluster.step dep.net (.restart n)).map fun cluster =>
        { cluster := cluster
          frontends := Function.update e.frontends n (Frontend.new (dep.capacity n)) }
  | .gossip a => (e.cluster.step dep.net a).map fun cluster => { e with cluster := cluster }
  | .rpc _ (.store _) => none
  | .rpc _ (.peers _) => none
  | .rpc n a =>
      ((e.server n).step dep.fromStr a).map fun server =>
        { cluster := e.cluster.setNode n { e.cluster.nodes n with live := server.live }
          frontends := Function.update e.frontends n server.frontend }

end Engine

end StateSync
