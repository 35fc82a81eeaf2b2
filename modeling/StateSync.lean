import StateSync.Proof.Snapshot
import StateSync.State.Snapshot
import StateSync.Proof.Agreement
import StateSync.Proof.Engine
import StateSync.Engine
import StateSync.Proof.Rounds
import StateSync.Proof.Deliverable
import StateSync.Proof.Transfers
import StateSync.Proof.TransferSteps
import StateSync.Proof.Reading
import StateSync.Gossip.Transfers
import StateSync.Proof.ResponseOrder
import StateSync.Proof.CatchUp
import StateSync.Proof.Followers
import StateSync.Proof.Connections
import StateSync.Rpc.Connections
import StateSync.Proof.Publication
import StateSync.Proof.Sessions
import StateSync.Proof.Linearization
import StateSync.Lib.Linearizable
import StateSync.State.Calls
import StateSync.Proof.EventOrder
import StateSync.Proof.LastWrite
import StateSync.Gossip.Cluster
import StateSync.State.Replicas
import StateSync.Proof.Origin
import StateSync.Proof.Convergence
import StateSync.Proof.ClusterInvariant
import StateSync.Proof.Refinement
import StateSync.Proof.Provenance
import StateSync.Proof.Delivery
import StateSync.Proof.Watermark
import StateSync.Proof.OwnWrites
import StateSync.Proof.Quiescence
import StateSync.Proof.Restart
import StateSync.Proof.Requests
import StateSync.Proof.History
import StateSync.Proof.Merges
import StateSync.Gossip.Registry
import StateSync.Gossip.Protocol
import StateSync.Proof.PeerTable
import StateSync.Proof.Discovery
import StateSync.Proof.Framing
import StateSync.Rpc.Serde
import StateSync.Proof.Dispatch
import StateSync.Proof.Effects
import StateSync.Proof.Responses
import StateSync.Proof.Subscriptions
import StateSync.Proof.Circulation
import StateSync.Proof.EndToEnd
