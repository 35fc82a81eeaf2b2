import StateSync.Proof.Reading
import StateSync.Proof.ClusterSteps

/-!
# What a step of the connections does

`Steps` lists the steps of the cluster with its connections by what they make of one transfer, and
`cluster` is what it looks like when the bytes are not looked at. The invariant of the transfers and
the refinement are proved from these.
-/

namespace StateSync

open Wire

/-! ### A transfer as an exchange -/

def SendTask.pc : SendTask → SendPc
  | .connecting | .writing _ | .reading _ => .waiting
  | .acked => .acked
  | .failed => .failed

def RecvTask.pc {ι : Type} : RecvTask ι → RecvPc ι
  | .listening | .reading _ _ => .inFlight
  | .merging r _ task => .merging r task
  | .registered r merged => .registered r merged
  | .writing _ ack _ | .done ack => .acked ack
  | .failed => .closed

def Transfer.exchange {ι : Type} (t : Transfer ι) : Exchange ι where
  sender := t.sender
  peerId := t.peerId
  peerAddr := t.peerAddr
  msg := t.msg
  maxSentTs := t.maxSentTs
  send := t.send.pc
  recv := if t.send = .acked then .closed else t.recv.pc

theorem SendTask.pc_of_running {send : SendTask} (h : send.running = true) :
    send.pc = .waiting := by
  cases send <;> simp_all [running, pc]

namespace WireCluster

def cluster {ι : Type} (w : WireCluster ι) : Cluster ι where
  nodes := w.nodes
  exchanges := w.transfers.map Transfer.exchange

variable {ι : Type} [DecidableEq ι] {net : Network ι} {codecs : Codecs} {w w' : WireCluster ι}

/-! ### The steps -/

inductive Steps (net : Network ι) (codecs : Codecs) (w : WireCluster ι) :
    WireAction ι → WireCluster ι → Prop
  | node {a : Action ι} {c : Cluster ι} (ha : ∀ n, a ≠ .restart n)
      (hstep : Cluster.step net { nodes := w.nodes, exchanges := [] } a = some c) :
      Steps net codecs w (.node a)
        { nodes := c.nodes, transfers := w.transfers ++ c.exchanges.map Transfer.start }
  | restart (n : ι) :
      Steps net codecs w (.restart n)
        { nodes := Function.update w.nodes n (Node.new (net.config n))
          transfers := w.transfers.map (Transfer.afterRestart n) }
  | connect {x : Nat} {t : Transfer ι} {r : ι} {send : SendTask} (ht : w.transfers[x]? = some t)
      (hr : net.resolve t.peerAddr = some r) (hsend : t.send = .connecting)
      (hwrite : send = .failed ∨ ∃ bytes, writeMessage codecs.message t.msg = .ok bytes
        ∧ send = .writing bytes) :
      Steps net codecs w (.connect x)
        (w.setTransfer x { t with send := send, recv := .reading r Reader.start })
  | writeByte {x : Nat} {t : Transfer ι} {byte : UInt8} {left : Bytes}
      (ht : w.transfers[x]? = some t) (hsend : t.send = .writing (byte :: left)) :
      Steps net codecs w (.writeByte x) (w.setTransfer x { t with
        send := if left = [] then .reading Reader.start else .writing left
        request := t.request ++ [byte] })
  | readMore {x : Nat} {t : Transfer ι} {r : ι} {reader reader' : Reader} {byte : UInt8}
      {request : Bytes} (ht : w.transfers[x]? = some t) (hrecv : t.recv = .reading r reader)
      (hrequest : t.request = byte :: request)
      (hpush : reader.push codecs.message byte = .more reader') :
      Steps net codecs w (.readByte x)
        (w.setTransfer x { t with request := request, recv := .reading r reader' })
  | readFail {x : Nat} {t : Transfer ι} {r : ι} {reader : Reader} {byte : UInt8}
      {request : Bytes} (ht : w.transfers[x]? = some t) (hrecv : t.recv = .reading r reader)
      (hrequest : t.request = byte :: request) :
      Steps net codecs w (.readByte x)
        (w.setTransfer x { t with request := request, recv := .failed })
  | read {x : Nat} {t : Transfer ι} {r : ι} {reader : Reader} {byte : UInt8} {request : Bytes}
      {msg : GossipMessage} {live : LiveStore} (ht : w.transfers[x]? = some t)
      (hrecv : t.recv = .reading r reader) (hrequest : t.request = byte :: request)
      (hpush : reader.push codecs.message byte = .message msg)
      (hlive : (w.nodes r).live.step (.callMerge msg.deltas) = some live) :
      Steps net codecs w (.readByte x) ((w.setNode r { w.nodes r with live := live }).setTransfer x
        { t with request := request, recv := .merging r msg (w.nodes r).live.tasks.length })
  | register {x : Nat} {t : Transfer ι} {r : ι} {msg : GossipMessage} {task : Nat}
      {delta : StateDelta} {updated : List String} (ht : w.transfers[x]? = some t)
      (hrecv : t.recv = .merging r msg task)
      (htask : (w.nodes r).live.tasks[task]? = some (.merge delta (.returned updated))) :
      Steps net codecs w (.register x) ((w.setNode r { w.nodes r with
          peers := (w.nodes r).peers.upsert msg.fromNodeId msg.fromGossipAddr
            PeerInfo.markSeen }).setTransfer x { t with recv := .registered r updated.length })
  | writeAck {x : Nat} {t : Transfer ι} {r : ι} {merged : Nat} {ack : GossipAck} {bytes : Bytes}
      (ht : w.transfers[x]? = some t) (hrecv : t.recv = .registered r merged)
      (hack : ack = { fromNodeId := (w.nodes r).live.nodeId, mergedCount := merged })
      (hwrite : writeMessage codecs.ack ack = .ok bytes) :
      Steps net codecs w (.writeAck x) (w.setTransfer x { t with recv := .writing r ack bytes })
  | writeAckFail {x : Nat} {t : Transfer ι} {r : ι} {merged : Nat}
      (ht : w.transfers[x]? = some t) (hrecv : t.recv = .registered r merged) :
      Steps net codecs w (.writeAck x) (w.setTransfer x { t with recv := .failed })
  | writeAckByte {x : Nat} {t : Transfer ι} {r : ι} {ack : GossipAck} {byte : UInt8}
      {left : Bytes} (ht : w.transfers[x]? = some t)
      (hrecv : t.recv = .writing r ack (byte :: left)) :
      Steps net codecs w (.writeAckByte x) (w.setTransfer x { t with
        recv := if left = [] then .done ack else .writing r ack left
        response := t.response ++ [byte] })
  | readAckMore {x : Nat} {t : Transfer ι} {reader reader' : Reader} {byte : UInt8}
      {response : Bytes} (ht : w.transfers[x]? = some t) (hsend : t.send = .reading reader)
      (hresponse : t.response = byte :: response)
      (hpush : reader.push codecs.ack byte = .more reader') :
      Steps net codecs w (.readAckByte x)
        (w.setTransfer x { t with response := response, send := .reading reader' })
  | readAckFail {x : Nat} {t : Transfer ι} {reader : Reader} {byte : UInt8} {response : Bytes}
      (ht : w.transfers[x]? = some t) (hsend : t.send = .reading reader)
      (hresponse : t.response = byte :: response) :
      Steps net codecs w (.readAckByte x)
        (w.setTransfer x { t with response := response, send := .failed })
  | readAck {x : Nat} {t : Transfer ι} {reader : Reader} {byte : UInt8} {response : Bytes}
      {ack : GossipAck} (ht : w.transfers[x]? = some t) (hsend : t.send = .reading reader)
      (hresponse : t.response = byte :: response)
      (hpush : reader.push codecs.ack byte = .message ack) :
      Steps net codecs w (.readAckByte x) ((w.setNode t.sender { w.nodes t.sender with
          peers := (w.nodes t.sender).peers.upsert t.peerId t.peerAddr
            (PeerInfo.recordExchange t.maxSentTs) }).setTransfer x
        { t with response := response, send := .acked })
  | failSend {x : Nat} {t : Transfer ι} (ht : w.transfers[x]? = some t)
      (hsend : t.send.running = true) :
      Steps net codecs w (.failSend x) (w.setTransfer x { t with send := .failed })
  | failRecv {x : Nat} {t : Transfer ι} (ht : w.transfers[x]? = some t)
      (hrecv : (∃ r reader, t.recv = .reading r reader)
        ∨ ∃ r ack left, t.recv = .writing r ack left) :
      Steps net codecs w (.failRecv x) (w.setTransfer x { t with recv := .failed })

theorem step_spec {a : WireAction ι} (hstep : w.step net codecs a = some w') :
    Steps net codecs w a w' := by
  cases a with
  | node a =>
      by_cases ha : ∃ n, a = .restart n
      · obtain ⟨n, rfl⟩ := ha
        simp [step] at hstep
      · have hrest : ∀ n, a ≠ .restart n := fun n hn => ha ⟨n, hn⟩
        obtain ⟨c, hc, heq⟩ : ∃ c, Cluster.step net { nodes := w.nodes, exchanges := [] } a = some c
            ∧ { nodes := c.nodes, transfers := w.transfers ++ c.exchanges.map Transfer.start }
              = w' := by
          cases a with
          | restart n => exact absurd rfl (hrest n)
          | _ => simpa [step, Option.bind_eq_some_iff] using hstep
        subst heq
        exact Steps.node hrest hc
  | restart n =>
      obtain rfl := Option.some.inj hstep
      exact Steps.restart n
  | connect x =>
      simp only [step, Option.bind_eq_bind, Option.bind_eq_some_iff] at hstep
      obtain ⟨t, ht, r, hr, hstep⟩ := hstep
      split at hstep
      · rename_i hsend
        obtain rfl := Option.some.inj hstep
        refine Steps.connect ht hr hsend ?_
        split
        · rename_i bytes hwrite
          exact Or.inr ⟨bytes, hwrite, rfl⟩
        · exact Or.inl rfl
      · simp at hstep
  | writeByte x =>
      simp only [step, Option.bind_eq_bind, Option.bind_eq_some_iff] at hstep
      obtain ⟨t, ht, hstep⟩ := hstep
      split at hstep
      · rename_i hsend
        obtain rfl := Option.some.inj hstep
        exact Steps.writeByte ht hsend
      · simp at hstep
  | readByte x =>
      simp only [step, Option.bind_eq_bind, Option.bind_eq_some_iff] at hstep
      obtain ⟨t, ht, hstep⟩ := hstep
      split at hstep
      · rename_i hrecv hrequest
        split at hstep
        · rename_i hpush
          obtain rfl := Option.some.inj hstep
          exact Steps.readMore ht hrecv hrequest hpush
        · obtain rfl := Option.some.inj hstep
          exact Steps.readFail ht hrecv hrequest
        · rename_i hpush
          obtain ⟨live, hlive, hstep⟩ := Option.bind_eq_some_iff.mp hstep
          obtain rfl := Option.some.inj hstep
          exact Steps.read ht hrecv hrequest hpush hlive
      · simp at hstep
  | register x =>
      simp only [step, Option.bind_eq_bind, Option.bind_eq_some_iff] at hstep
      obtain ⟨t, ht, hstep⟩ := hstep
      split at hstep
      · rename_i hrecv
        split at hstep
        · rename_i htask
          obtain rfl := Option.some.inj hstep
          exact Steps.register ht hrecv htask
        · simp at hstep
      · simp at hstep
  | writeAck x =>
      simp only [step, Option.bind_eq_bind, Option.bind_eq_some_iff] at hstep
      obtain ⟨t, ht, hstep⟩ := hstep
      split at hstep
      · rename_i hrecv
        obtain rfl := Option.some.inj hstep
        split
        · rename_i hwrite
          exact Steps.writeAck ht hrecv rfl hwrite
        · exact Steps.writeAckFail ht hrecv
      · simp at hstep
  | writeAckByte x =>
      simp only [step, Option.bind_eq_bind, Option.bind_eq_some_iff] at hstep
      obtain ⟨t, ht, hstep⟩ := hstep
      split at hstep
      · rename_i hrecv
        obtain rfl := Option.some.inj hstep
        exact Steps.writeAckByte ht hrecv
      · simp at hstep
  | readAckByte x =>
      simp only [step, Option.bind_eq_bind, Option.bind_eq_some_iff] at hstep
      obtain ⟨t, ht, hstep⟩ := hstep
      split at hstep
      · rename_i hsend hresponse
        split at hstep
        · rename_i hpush
          obtain rfl := Option.some.inj hstep
          exact Steps.readAckMore ht hsend hresponse hpush
        · obtain rfl := Option.some.inj hstep
          exact Steps.readAckFail ht hsend hresponse
        · rename_i hpush
          obtain rfl := Option.some.inj hstep
          exact Steps.readAck ht hsend hresponse hpush
      · simp at hstep
  | failSend x =>
      simp only [step, Option.bind_eq_bind, Option.bind_eq_some_iff] at hstep
      obtain ⟨t, ht, hstep⟩ := hstep
      split at hstep
      · rename_i hsend
        obtain rfl := Option.some.inj hstep
        exact Steps.failSend ht hsend
      · simp at hstep
  | failRecv x =>
      simp only [step, Option.bind_eq_bind, Option.bind_eq_some_iff] at hstep
      obtain ⟨t, ht, hstep⟩ := hstep
      split at hstep
      · rename_i hrecv
        obtain rfl := Option.some.inj hstep
        exact Steps.failRecv ht (Or.inl ⟨_, _, hrecv⟩)
      · rename_i hrecv
        obtain rfl := Option.some.inj hstep
        exact Steps.failRecv ht (Or.inr ⟨_, _, _, hrecv⟩)
      · simp at hstep

end WireCluster

end StateSync
