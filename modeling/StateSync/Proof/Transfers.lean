import StateSync.Proof.TransferSteps

/-!
# The byte streams refine the exchanges

The cluster treats a push as one message that is read whole or lost. Here every run of the cluster
with its connections, in which frames arrive in pieces, are broken off, are too long or cannot be
decoded, is shown to be a run of that cluster: what the receiver merges is what the sender pushed,
and what the sender takes for an acknowledgement is one.
-/

namespace StateSync

open Wire

variable {ι : Type} {net : Network ι} {codecs : Codecs}

/-- The codecs the program uses. -/
def bincode : Codecs where
  message := Bincode.ofFormat GossipMessage.format
  ack := Bincode.ofFormat GossipAck.format

theorem lawful_bincode : bincode.Lawful where
  message := Bincode.lawful_ofFormat _
  ack := Bincode.lawful_ofFormat _

/-! ### One transfer -/

/-- The bytes of the acknowledgement that are on the stream or were read off it. -/
def RecvTask.Answered {ι : Type} (codecs : Codecs) (bytes : Bytes) : RecvTask ι → Prop
  | .listening | .reading _ _ | .merging _ _ _ | .registered _ _ => bytes = []
  | .writing _ ack left => left ≠ [] ∧ writeMessage codecs.ack ack = .ok (bytes ++ left)
  | .done ack => writeMessage codecs.ack ack = .ok bytes
  | .failed => bytes = [] ∨ ∃ ack left, left ≠ []
      ∧ writeMessage codecs.ack ack = .ok (bytes ++ left)

/-- The receiver has read a message. -/
def RecvTask.hasRead {ι : Type} : RecvTask ι → Bool
  | .merging _ _ _ | .registered _ _ | .writing _ _ _ | .done _ => true
  | .listening | .reading _ _ | .failed => false

/-- The streams of a transfer: what was taken off them and what is on them is a part of what is
written, and the readers are where that part leads. -/
structure Transfer.Sound (net : Network ι) (codecs : Codecs) (t : Transfer ι) : Prop where
  request : ∃ taken, taken ++ t.request <+: frame codecs.message t.msg
    ∧ (t.recv = .listening → taken ++ t.request = [])
    ∧ (∀ r reader, t.recv = .reading r reader → Reader.After codecs.message taken reader)
    ∧ ∀ left, t.send = .writing left → taken ++ t.request ++ left = frame codecs.message t.msg
  response : ∃ taken, t.recv.Answered codecs (taken ++ t.response)
    ∧ (∀ reader, t.send = .reading reader → Reader.After codecs.ack taken reader)
    ∧ ∀ left, t.send = .writing left → taken = []
  connecting : t.send = .connecting → t.recv = .listening
  listening : t.recv = .listening → t.send = .connecting ∨ t.send = .failed
  resolved : ∀ r reader, t.recv = .reading r reader → net.resolve t.peerAddr = some r
  merging : ∀ r msg task, t.recv = .merging r msg task → msg = t.msg
  fits : t.recv.hasRead = true → ∃ payload, codecs.message.serialize t.msg = .ok payload
    ∧ payload.length ≤ maxMessageBytes
  acked : t.send = .acked → ∃ ack, t.recv = .done ack

theorem Transfer.sound_start (ex : Exchange ι) : (Transfer.start ex).Sound net codecs where
  request := ⟨[], List.nil_prefix, by simp [start], by simp [start], by simp [start]⟩
  response := ⟨[], by simp [start, RecvTask.Answered], by simp [start], by simp [start]⟩
  connecting := fun _ => rfl
  listening := fun _ => Or.inl rfl
  resolved := by simp [start]
  merging := by simp [start]
  fits := by simp [start, RecvTask.hasRead]
  acked := by simp [start]

variable {t : Transfer ι}

theorem Transfer.Sound.not_acked (h : t.Sound net codecs) (hrecv : ∀ ack, t.recv ≠ .done ack) :
    t.send ≠ .acked := by
  intro hsend
  obtain ⟨ack, hdone⟩ := h.acked hsend
  exact hrecv ack hdone

/-- An acknowledgement was read, so all of it was written. -/
theorem RecvTask.Answered.done_of_feed (hlawful : codecs.ack.Lawful) {recv : RecvTask ι}
    {front back rest : Bytes} {ack : GossipAck} (h : recv.Answered codecs (front ++ back))
    (hfront : front ≠ [])
    (hfeed : (Progress.more Reader.start).feed codecs.ack front = (.message ack, rest)) :
    recv = .done ack := by
  have hcut {ack' : GossipAck} {left : Bytes}
      (hwrite : writeMessage codecs.ack ack' = .ok (front ++ back ++ left)) :
      ack = ack' ∧ back ++ left = [] := by
    rw [List.append_assoc] at hwrite
    have hprefix : front <+: frame codecs.ack ack' := by
      rw [writeMessage_ok_frame hwrite]
      exact List.prefix_append _ _
    obtain ⟨hack, hwhole, _⟩ := message_of_feed hlawful hprefix hfeed
    rw [writeMessage_ok_frame hwrite] at hwhole
    exact ⟨hack, List.self_eq_append_right.mp hwhole⟩
  have hne : front ++ back ≠ [] := by simp [hfront]
  cases recv with
  | writing r ack' left =>
      obtain ⟨hleft, hwrite⟩ := h
      exact absurd (List.append_eq_nil_iff.mp (hcut hwrite).2).2 hleft
  | done ack' =>
      have hwrite : writeMessage codecs.ack ack' = .ok (front ++ back ++ []) := by
        rw [List.append_nil]
        exact h
      rw [(hcut hwrite).1]
  | failed =>
      obtain hnil | ⟨ack', left, hleft, hwrite⟩ := h
      · exact absurd hnil hne
      · exact absurd (List.append_eq_nil_iff.mp (hcut hwrite).2).2 hleft
  | _ => exact absurd h hne

/-- What the sender has read is what the receiver wrote. -/
theorem Transfer.Sound.done_of_push (h : t.Sound net codecs) (hlawful : codecs.Lawful)
    {reader : Reader} {byte : UInt8} {response : Bytes} {ack : GossipAck}
    (hsend : t.send = .reading reader) (hresponse : t.response = byte :: response)
    (hpush : reader.push codecs.ack byte = .message ack) : t.recv = .done ack := by
  obtain ⟨taken, hanswered, hreading, _⟩ := h.response
  have hfeed := (hreading reader hsend).feed byte
  rw [hpush] at hfeed
  rw [hresponse, ← List.singleton_append, ← List.append_assoc] at hanswered
  exact hanswered.done_of_feed hlawful.ack (by simp) hfeed

/-- The task of the receiver moves on from reading. -/
theorem Transfer.Sound.recv_step (h : t.Sound net codecs) {recv : RecvTask ι} (response : Bytes)
    (hstarted : t.recv ≠ .listening) (hpast : recv.pc ≠ .inFlight)
    (hanswered : ∀ taken, t.recv.Answered codecs (taken ++ t.response) →
      recv.Answered codecs (taken ++ response))
    (hmerging : ∀ r msg task, recv = .merging r msg task → msg = t.msg)
    (hfits : recv.hasRead = true → t.recv.hasRead = true)
    (hdone : ∀ ack, t.recv ≠ .done ack) :
    Transfer.Sound net codecs { t with recv := recv, response := response } where
  request := by
    obtain ⟨taken, hprefix, _, _, hwriting⟩ := h.request
    refine ⟨taken, hprefix, ?_, ?_, hwriting⟩
    · rintro rfl
      exact absurd rfl hpast
    · rintro r reader rfl
      exact absurd rfl hpast
  response := by
    obtain ⟨taken, hold, hreading, hwriting⟩ := h.response
    exact ⟨taken, hanswered taken hold, hreading, hwriting⟩
  connecting := fun hsend => absurd (h.connecting hsend) hstarted
  listening := by
    rintro rfl
    exact absurd rfl hpast
  resolved := by
    rintro r reader rfl
    exact absurd rfl hpast
  merging := hmerging
  fits := fun hread => h.fits (hfits hread)
  acked := fun hsend => absurd hsend (h.not_acked hdone)

theorem Transfer.Sound.failRecv (h : t.Sound net codecs) (hstarted : t.recv ≠ .listening)
    (hdone : ∀ ack, t.recv ≠ .done ack) :
    Transfer.Sound net codecs { t with recv := .failed } := by
  apply h.recv_step t.response hstarted (by simp [RecvTask.pc])
  · intro taken hanswered
    cases hrecv : t.recv with
    | listening => exact absurd hrecv hstarted
    | done ack => exact absurd hrecv (hdone ack)
    | writing r ack left =>
        rw [hrecv] at hanswered
        exact Or.inr ⟨ack, left, hanswered.1, hanswered.2⟩
    | failed =>
        rwa [hrecv] at hanswered
    | _ =>
        rw [hrecv] at hanswered
        exact Or.inl hanswered
  · simp
  · simp [RecvTask.hasRead]
  · exact hdone

/-- What the receiver has read is what the sender pushed. -/
theorem Transfer.Sound.message_of_push (h : t.Sound net codecs) (hlawful : codecs.Lawful) {r : ι}
    {reader : Reader} {byte : UInt8} {request : Bytes} {msg : GossipMessage}
    (hrecv : t.recv = .reading r reader) (hrequest : t.request = byte :: request)
    (hpush : reader.push codecs.message byte = .message msg) :
    msg = t.msg ∧ ∃ payload, codecs.message.serialize t.msg = .ok payload
      ∧ payload.length ≤ maxMessageBytes := by
  obtain ⟨taken, hprefix, _, hafter, _⟩ := h.request
  have hfeed := (hafter r reader hrecv).feed byte
  rw [hpush] at hfeed
  have hfront : taken ++ [byte] <+: frame codecs.message t.msg := by
    apply List.IsPrefix.trans ?_ hprefix
    exact ⟨request, by simp [hrequest]⟩
  obtain ⟨hmsg, _, hfits⟩ := message_of_feed hlawful.message hfront hfeed
  exact ⟨hmsg, hfits⟩

/-- The receiver takes one byte off the stream. -/
theorem Transfer.Sound.request_step (h : t.Sound net codecs) {r : ι} {reader : Reader}
    {byte : UInt8} {request : Bytes} {recv : RecvTask ι} (hrecv : t.recv = .reading r reader)
    (hrequest : t.request = byte :: request) (hlistening : recv ≠ .listening)
    (hreading : ∀ r' reader', recv = .reading r' reader' →
      r' = r ∧ reader.push codecs.message byte = .more reader')
    (hanswered : recv.Answered codecs [])
    (hmerging : ∀ r msg task, recv = .merging r msg task → msg = t.msg)
    (hfits : recv.hasRead = true → ∃ payload, codecs.message.serialize t.msg = .ok payload
      ∧ payload.length ≤ maxMessageBytes) :
    Transfer.Sound net codecs { t with request := request, recv := recv } where
  request := by
    obtain ⟨taken, hprefix, _, hafter, hwriting⟩ := h.request
    have hshift : taken ++ [byte] ++ request = taken ++ t.request := by simp [hrequest]
    refine ⟨taken ++ [byte], ?_, fun hrecv' => absurd hrecv' hlistening, ?_, ?_⟩
    · rwa [hshift]
    · intro r' reader' hrecv'
      exact (hafter r reader hrecv).push (hreading r' reader' hrecv').2
    · intro left hsend
      rw [hshift]
      exact hwriting left hsend
  response := by
    obtain ⟨taken, hold, hsend⟩ := h.response
    rw [hrecv] at hold
    refine ⟨taken, ?_, hsend⟩
    rw [show taken ++ t.response = [] from hold]
    exact hanswered
  connecting := by
    intro hsend
    have := h.connecting hsend
    simp [hrecv] at this
  listening := fun hrecv' => absurd hrecv' hlistening
  resolved := by
    intro r' reader' hrecv'
    obtain ⟨rfl, _⟩ := hreading r' reader' hrecv'
    exact h.resolved r' reader hrecv
  merging := hmerging
  fits := hfits
  acked := fun hsend => absurd hsend (h.not_acked (by simp [hrecv]))

/-- The task of the sender stops or goes on reading. -/
theorem Transfer.Sound.send_step (h : t.Sound net codecs) {send : SendTask} (response : Bytes)
    (hpast : send ≠ .connecting ∧ ∀ left, send ≠ .writing left)
    (htaken : ∀ taken, (∀ reader, t.send = .reading reader → Reader.After codecs.ack taken reader) →
      ∃ taken', taken' ++ response = taken ++ t.response
        ∧ ∀ reader, send = .reading reader → Reader.After codecs.ack taken' reader)
    (hlistening : t.recv = .listening → send = .failed)
    (hacked : send = .acked → ∃ ack, t.recv = .done ack) :
    Transfer.Sound net codecs { t with send := send, response := response } where
  request := by
    obtain ⟨taken, hprefix, hempty, hreading, _⟩ := h.request
    exact ⟨taken, hprefix, hempty, hreading, fun left hsend => absurd hsend (hpast.2 left)⟩
  response := by
    obtain ⟨taken, hanswered, hreading, _⟩ := h.response
    obtain ⟨taken', heq, hreading'⟩ := htaken taken hreading
    refine ⟨taken', ?_, hreading', fun left hsend => absurd hsend (hpast.2 left)⟩
    rwa [heq]
  connecting := fun hsend => absurd hsend hpast.1
  listening := fun hrecv => Or.inr (hlistening hrecv)
  resolved := h.resolved
  merging := h.merging
  fits := h.fits
  acked := hacked

theorem Transfer.Sound.failSend (h : t.Sound net codecs) :
    Transfer.Sound net codecs { t with send := .failed } := by
  apply h.send_step t.response (by simp)
  · exact fun taken _ => ⟨taken, rfl, by simp⟩
  · simp
  · simp

theorem Transfer.Sound.afterRestart [DecidableEq ι] (h : t.Sound net codecs) (n : ι) :
    (t.afterRestart n).Sound net codecs := by
  have hsend : Transfer.Sound net codecs { t with
      send := if t.sender = n ∧ t.send.running then .failed else t.send } := by
    split
    · exact h.failSend
    · exact h
  by_cases hrecv : t.recv.receiver? = some n
  · rw [Transfer.afterRestart, if_pos hrecv]
    refine hsend.failRecv ?_ ?_
    · intro hlistening
      simp only at hlistening
      simp [hlistening, RecvTask.receiver?] at hrecv
    · intro ack hdone
      simp only at hdone
      simp [hdone, RecvTask.receiver?] at hrecv
  · rw [Transfer.afterRestart, if_neg hrecv]
    exact hsend

namespace WireCluster

variable [DecidableEq ι] {w w' : WireCluster ι}

omit [DecidableEq ι] in
theorem of_setTransfer {P : Transfer ι → Prop} {x : Nat} {t' : Transfer ι}
    (h : ∀ t ∈ w.transfers, P t) (ht' : P t') : ∀ t ∈ w.transfers.set x t', P t := by
  intro t ht
  obtain hold | rfl := List.mem_or_eq_of_mem_set ht
  · exact h t hold
  · exact ht'

/-- **The streams are sound.** -/
theorem Steps.sound (hlawful : codecs.Lawful) (h : ∀ t ∈ w.transfers, t.Sound net codecs)
    {a : WireAction ι} (hsteps : Steps net codecs w a w') :
    ∀ t ∈ w'.transfers, t.Sound net codecs := by
  have hof {x : Nat} {t : Transfer ι} (ht : w.transfers[x]? = some t) : t.Sound net codecs :=
    h t (List.mem_of_getElem? ht)
  cases hsteps with
  | @node a c ha hstep =>
      intro t ht
      obtain hold | hnew := List.mem_append.mp ht
      · exact h t hold
      · obtain ⟨ex, _, rfl⟩ := List.mem_map.mp hnew
        exact Transfer.sound_start ex
  | restart n =>
      intro t ht
      obtain ⟨t₀, ht₀, rfl⟩ := List.mem_map.mp ht
      exact (h t₀ ht₀).afterRestart n
  | @connect x t r send ht hr hsend hwrite =>
      apply of_setTransfer h
      have hs := hof ht
      have hlistening := hs.connecting hsend
      obtain ⟨taken, _, hempty, _⟩ := hs.request
      obtain ⟨rfl, hrequest⟩ := List.append_eq_nil_iff.mp (hempty hlistening)
      obtain ⟨taken, hanswered, _⟩ := hs.response
      rw [hlistening] at hanswered
      obtain ⟨rfl, hresponse⟩ := List.append_eq_nil_iff.mp hanswered
      refine ⟨⟨[], ?_, by simp, ?_, ?_⟩, ⟨[], ?_, ?_, by simp⟩, ?_, by simp, ?_, by simp,
        by simp [RecvTask.hasRead], ?_⟩
      · simp [hrequest]
      · intro r' reader' hrecv
        obtain ⟨_, rfl⟩ := RecvTask.reading.inj hrecv
        exact Reader.after_start
      · rintro left rfl
        obtain hfailed | ⟨bytes, hbytes, hleft⟩ := hwrite
        · simp at hfailed
        · obtain rfl := SendTask.writing.inj hleft
          rw [hrequest, writeMessage_ok_frame hbytes]
          rfl
      · exact hanswered
      · rintro reader rfl
        simp at hwrite
      · rintro rfl
        simp at hwrite
      · intro r' reader' hrecv
        obtain ⟨rfl, _⟩ := RecvTask.reading.inj hrecv
        exact hr
      · rintro rfl
        simp at hwrite
  | @writeByte x t byte left ht hsend =>
      apply of_setTransfer h
      have hs := hof ht
      have hstarted : t.recv ≠ .listening := by
        intro hrecv
        have := hs.listening hrecv
        simp [hsend] at this
      obtain ⟨taken, _, _, hafter, hwriting⟩ := hs.request
      obtain ⟨taken', hanswered, _, hnone⟩ := hs.response
      obtain rfl := hnone _ hsend
      have hwhole : taken ++ (t.request ++ [byte]) ++ left = frame codecs.message t.msg := by
        rw [← hwriting _ hsend]
        simp
      refine ⟨⟨taken, ⟨left, hwhole⟩, fun hrecv => absurd hrecv hstarted, hafter, ?_⟩,
        ⟨[], hanswered, ?_, fun _ _ => rfl⟩, ?_, fun hrecv => absurd hrecv hstarted, hs.resolved,
        hs.merging, hs.fits, ?_⟩
      · intro left' hsend'
        simp only at hsend'
        split at hsend'
        · simp at hsend'
        · obtain rfl := SendTask.writing.inj hsend'
          exact hwhole
      · intro reader hsend'
        simp only at hsend'
        split at hsend'
        · obtain rfl := SendTask.reading.inj hsend'
          exact Reader.after_start
        · simp at hsend'
      · intro hsend'
        simp only at hsend'
        split at hsend' <;> simp at hsend'
      · intro hsend'
        simp only at hsend'
        split at hsend' <;> simp at hsend'
  | @readMore x t r reader reader' byte request ht hrecv hrequest hpush =>
      apply of_setTransfer h
      apply (hof ht).request_step hrecv hrequest (by simp)
      · intro r' next hnext
        obtain ⟨rfl, rfl⟩ := RecvTask.reading.inj hnext
        exact ⟨rfl, hpush⟩
      · simp [RecvTask.Answered]
      · simp
      · simp [RecvTask.hasRead]
  | @readFail x t r reader byte request ht hrecv hrequest =>
      apply of_setTransfer h
      apply (hof ht).request_step hrecv hrequest (by simp)
      · simp
      · simp [RecvTask.Answered]
      · simp
      · simp [RecvTask.hasRead]
  | @read x t r reader byte request msg live ht hrecv hrequest hpush hlive =>
      apply of_setTransfer h
      obtain ⟨rfl, hfits⟩ := (hof ht).message_of_push hlawful hrecv hrequest hpush
      apply (hof ht).request_step hrecv hrequest (by simp)
      · simp
      · simp [RecvTask.Answered]
      · rintro r' msg task' heq
        exact ((RecvTask.merging.inj heq).2.1).symm
      · exact fun _ => hfits
  | @register x t r msg task delta updated ht hrecv htask =>
      apply of_setTransfer h
      apply (hof ht).recv_step t.response (by simp [hrecv]) (by simp [RecvTask.pc])
      · intro taken hanswered
        rwa [hrecv] at hanswered
      · simp
      · simp [hrecv, RecvTask.hasRead]
      · simp [hrecv]
  | @writeAck x t r merged ack bytes ht hrecv hack hwrite =>
      apply of_setTransfer h
      apply (hof ht).recv_step t.response (by simp [hrecv]) (by simp [RecvTask.pc])
      · intro taken hanswered
        rw [hrecv] at hanswered
        obtain ⟨payload, _, rfl⟩ := writeMessage_eq_ok.mp hwrite
        refine ⟨by simp [toBeBytes], ?_⟩
        rw [show taken ++ t.response = [] from hanswered, List.nil_append]
        exact hwrite
      · simp
      · simp [hrecv, RecvTask.hasRead]
      · simp [hrecv]
  | @writeAckFail x t r merged ht hrecv =>
      apply of_setTransfer h
      exact (hof ht).failRecv (by simp [hrecv]) (by simp [hrecv])
  | @writeAckByte x t r ack byte left ht hrecv =>
      apply of_setTransfer h
      apply (hof ht).recv_step _ (by simp [hrecv])
      · split <;> simp [RecvTask.pc]
      · intro taken hanswered
        rw [hrecv] at hanswered
        obtain ⟨_, hwrite⟩ := hanswered
        split
        · rename_i hleft
          subst hleft
          simpa [RecvTask.Answered] using hwrite
        · rename_i hleft
          refine ⟨hleft, ?_⟩
          simpa using hwrite
      · split <;> simp
      · simp [hrecv, RecvTask.hasRead]
      · simp [hrecv]
  | @readAckMore x t reader reader' byte response ht hsend hresponse hpush =>
      apply of_setTransfer h
      apply (hof ht).send_step _ (by simp)
      · intro taken hreading
        refine ⟨taken ++ [byte], by simp [hresponse], ?_⟩
        intro next hnext
        obtain rfl := SendTask.reading.inj hnext
        exact (hreading reader hsend).push hpush
      · intro hrecv
        have := (hof ht).listening hrecv
        simp [hsend] at this
      · simp
  | @readAckFail x t reader byte response ht hsend hresponse =>
      apply of_setTransfer h
      apply (hof ht).send_step _ (by simp)
      · intro taken _
        exact ⟨taken ++ [byte], by simp [hresponse], by simp⟩
      · simp
      · simp
  | @readAck x t reader byte response ack ht hsend hresponse hpush =>
      apply of_setTransfer h
      have hs := hof ht
      have hdone := hs.done_of_push hlawful hsend hresponse hpush
      apply hs.send_step _ (by simp)
      · intro taken _
        exact ⟨taken ++ [byte], by simp [hresponse], by simp⟩
      · simp [hdone]
      · exact fun _ => ⟨ack, hdone⟩
  | @failSend x t ht hsend =>
      apply of_setTransfer h
      exact (hof ht).failSend
  | @failRecv x t ht hrecv =>
      apply of_setTransfer h
      obtain ⟨r, reader, hrecv⟩ | ⟨r, ack, left, hrecv⟩ := hrecv
      · exact (hof ht).failRecv (by simp [hrecv]) (by simp [hrecv])
      · exact (hof ht).failRecv (by simp [hrecv]) (by simp [hrecv])

/-! ### The cluster below -/

omit [DecidableEq ι] in
theorem cluster_setTransfer (x : Nat) (t : Transfer ι) :
    (w.setTransfer x t).cluster = w.cluster.setExchange x t.exchange := by
  simp [cluster, setTransfer, Cluster.setExchange]

theorem cluster_setNode (n : ι) (node : Node) :
    (w.setNode n node).cluster = w.cluster.setNode n node := rfl

omit [DecidableEq ι] in
theorem exchanges_cluster {x : Nat} {t : Transfer ι} (ht : w.transfers[x]? = some t) :
    w.cluster.exchanges[x]? = some t.exchange := by
  simp [cluster, ht]

omit [DecidableEq ι] in
theorem cluster_eq {x : Nat} {t t' : Transfer ι} (ht : w.transfers[x]? = some t)
    (hsame : t'.exchange = t.exchange) : (w.setTransfer x t').cluster = w.cluster := by
  obtain ⟨hlt, hget⟩ := List.getElem?_eq_some_iff.mp (exchanges_cluster ht)
  rw [cluster_setTransfer, hsame, ← hget, Cluster.setExchange, List.set_getElem_self]

/-- A step of a node does not depend on the exchanges that are there, and starts the new ones. -/
theorem step_exchanges {nodes : ι → Node} (exchanges : List (Exchange ι)) {a : Action ι}
    {c : Cluster ι} (ha : ∀ n, a ≠ .restart n)
    (hstep : Cluster.step net { nodes := nodes, exchanges := [] } a = some c) :
    Cluster.step net { nodes := nodes, exchanges := exchanges } a
        = some { nodes := c.nodes, exchanges := exchanges ++ c.exchanges }
      ∧ ∀ ex ∈ c.exchanges, ex.send = .waiting ∧ ex.recv = .inFlight := by
  have hstore {n : ι} {sa : StoreAction}
      (hstep : Cluster.storeStep { nodes := nodes, exchanges := [] } n sa = some c) :
      Cluster.storeStep { nodes := nodes, exchanges := exchanges } n sa
          = some { nodes := c.nodes, exchanges := exchanges ++ c.exchanges }
        ∧ ∀ ex ∈ c.exchanges, ex.send = .waiting ∧ ex.recv = .inFlight := by
    obtain ⟨live, hlive, rfl⟩ := Option.map_eq_some_iff.mp hstep
    refine ⟨?_, by simp [Cluster.setNode]⟩
    rw [Cluster.storeStep, show (nodes n).live.step sa = some live from hlive]
    simp [Cluster.setNode]
  cases a with
  | callSet n key value now => exact hstore hstep
  | advance n i => exact hstore hstep
  | beginRound n =>
      simp only [Cluster.step] at hstep ⊢
      split at hstep
      · obtain rfl := Option.some.inj hstep
        simp [Cluster.setNode, *]
      · simp at hstep
  | scanPeer n peerId =>
      simp only [Cluster.step, Option.bind_eq_bind, Option.bind_eq_some_iff] at hstep ⊢
      obtain ⟨info, hinfo, hstep⟩ := hstep
      split at hstep
      · split at hstep
        · simp at hstep
        · obtain rfl := Option.some.inj hstep
          simp [Cluster.setNode, *]
      · simp at hstep
  | startRound n shuffled =>
      simp only [Cluster.step] at hstep ⊢
      split at hstep
      · split at hstep
        · split at hstep
          · obtain rfl := Option.some.inj hstep
            simp [Cluster.setNode, *]
          · obtain rfl := Option.some.inj hstep
            simp [Cluster.setNode, *]
        · simp at hstep
      · simp at hstep
  | sendNext n delta =>
      simp only [Cluster.step] at hstep ⊢
      split at hstep
      · split at hstep
        · split at hstep
          · obtain rfl := Option.some.inj hstep
            simp [Cluster.setNode, *]
          · obtain rfl := Option.some.inj hstep
            simp [Cluster.setNode, *]
        · simp at hstep
      · simp at hstep
  | restart n => exact absurd rfl (ha n)
  | _ => simp [Cluster.step] at hstep

theorem afterRestart_exchange (t : Transfer ι) (n : ι) :
    (t.afterRestart n).exchange = t.exchange.afterRestart n
      ∨ ((∀ r task, (t.exchange.afterRestart n).recv ≠ .merging r task)
        ∧ (t.afterRestart n).exchange = { t.exchange.afterRestart n with recv := .closed }) := by
  by_cases hacked : t.send = .acked
  · left
    simp [Transfer.afterRestart, Transfer.exchange, Exchange.afterRestart, hacked, SendTask.running,
      SendTask.pc]
  · have hsend : (if t.sender = n ∧ t.send.running then SendTask.failed else t.send).pc
        = if t.sender = n ∧ t.send.pc = .waiting then .failed else t.send.pc := by
      by_cases hn : t.sender = n
      · cases t.send <;> simp [hn, SendTask.running, SendTask.pc]
      · simp [hn]
    have hnot : (if t.sender = n ∧ t.send.running then SendTask.failed else t.send) ≠ .acked := by
      split
      · simp
      · exact hacked
    simp only [Transfer.afterRestart, Transfer.exchange, Exchange.afterRestart, hsend, hacked,
      hnot, if_false]
    cases t.recv with
    | reading r reader =>
        by_cases hr : r = n
        · right
          simp [RecvTask.pc, RecvTask.receiver?, hr]
        · left
          simp [RecvTask.pc, RecvTask.receiver?, hr]
    | writing r ack left =>
        by_cases hr : r = n
        · right
          simp [RecvTask.pc, RecvTask.receiver?, hr]
        · left
          simp [RecvTask.pc, RecvTask.receiver?, hr]
    | merging r msg task =>
        left
        by_cases hr : r = n <;> simp [RecvTask.pc, RecvTask.receiver?, hr]
    | registered r merged =>
        left
        by_cases hr : r = n <;> simp [RecvTask.pc, RecvTask.receiver?, hr]
    | _ =>
        left
        simp [RecvTask.pc, RecvTask.receiver?]

/-- What becomes of the exchanges that lose their connection. -/
theorem run_lose (nodes : ι → Node) (before : List (Exchange ι))
    {exchanges exchanges' : List (Exchange ι)}
    (h : List.Forall₂ (fun ex ex' => ex' = ex
      ∨ ((∀ r task, ex.recv ≠ .merging r task) ∧ ex' = { ex with recv := .closed }))
      exchanges exchanges') :
    ∃ bs, Machine.run (Cluster.step net) { nodes := nodes, exchanges := before ++ exchanges } bs
      = some { nodes := nodes, exchanges := before ++ exchanges' } := by
  induction h generalizing before with
  | nil => exact ⟨[], rfl⟩
  | @cons ex ex' rest rest' hhead _ ih =>
      obtain ⟨bs, hbs⟩ := ih (before ++ [ex'])
      rw [List.append_assoc, List.singleton_append, List.append_assoc, List.singleton_append]
        at hbs
      obtain rfl | ⟨hmerging, rfl⟩ := hhead
      · exact ⟨bs, hbs⟩
      · refine ⟨.lose before.length :: bs, Machine.run_cons_eq_some.mpr ⟨_, ?_, hbs⟩⟩
        simp [Cluster.step, Cluster.setExchange]

theorem step_failSend {x : Nat} {t t' : Transfer ι} (ht : w.transfers[x]? = some t)
    (hsend : t.send.running = true)
    (ht' : t'.exchange = { t.exchange with send := .failed }) :
    Cluster.step net w.cluster (.failSend x) = some (w.setTransfer x t').cluster := by
  have hwaiting : t.exchange.send = .waiting := SendTask.pc_of_running hsend
  simp [Cluster.step, exchanges_cluster ht, hwaiting, cluster_setTransfer, ht']

theorem step_lose {x : Nat} {t t' : Transfer ι} (ht : w.transfers[x]? = some t)
    (hmerging : ∀ r msg task, t.recv ≠ .merging r msg task)
    (ht' : t'.exchange = { t.exchange with recv := .closed }) :
    Cluster.step net w.cluster (.lose x) = some (w.setTransfer x t').cluster := by
  have hrecv : ∀ r task, t.exchange.recv ≠ .merging r task := by
    intro r task hrecv
    simp only [Transfer.exchange] at hrecv
    split at hrecv
    · simp at hrecv
    · cases ht : t.recv <;> simp_all [RecvTask.pc]
  simp [Cluster.step, exchanges_cluster ht, cluster_setTransfer, ht']

/-- One step of the connections is a step of the cluster, none, or the restart of a node after which
the messages it was reading and the acknowledgements it was writing are lost. -/
theorem Steps.refines (hlawful : codecs.Lawful) (h : ∀ t ∈ w.transfers, t.Sound net codecs)
    {a : WireAction ι} (hsteps : Steps net codecs w a w') :
    ∃ bs, Machine.run (Cluster.step net) w.cluster bs = some w'.cluster := by
  have hof {x : Nat} {t : Transfer ι} (ht : w.transfers[x]? = some t) : t.Sound net codecs :=
    h t (List.mem_of_getElem? ht)
  have hone {b : Action ι} (hb : Cluster.step net w.cluster b = some w'.cluster) :
      ∃ bs, Machine.run (Cluster.step net) w.cluster bs = some w'.cluster :=
    ⟨[b], Machine.run_cons_eq_some.mpr ⟨_, hb, rfl⟩⟩
  have hnone (hsame : w'.cluster = w.cluster) :
      ∃ bs, Machine.run (Cluster.step net) w.cluster bs = some w'.cluster :=
    ⟨[], by rw [Machine.run_nil, hsame]⟩
  cases hsteps with
  | @node a c ha hstep =>
      obtain ⟨hcluster, hfresh⟩ := step_exchanges w.cluster.exchanges ha hstep
      refine hone (hcluster.trans ?_)
      have hstart : (c.exchanges.map Transfer.start).map Transfer.exchange = c.exchanges := by
        rw [List.map_map]
        refine (List.map_congr_left ?_).trans (List.map_id _)
        intro ex hex
        obtain ⟨hsend, hrecv⟩ := hfresh ex hex
        cases ex
        simp_all [Transfer.start, Transfer.exchange, SendTask.pc, RecvTask.pc]
      simp [cluster, hstart]
  | restart n =>
      have hlost : List.Forall₂ (fun ex ex' => ex' = ex
          ∨ ((∀ r task, ex.recv ≠ .merging r task) ∧ ex' = { ex with recv := .closed }))
          (w.cluster.exchanges.map (Exchange.afterRestart n))
          ((w.transfers.map (Transfer.afterRestart n)).map Transfer.exchange) := by
        rw [cluster, List.map_map, List.map_map, List.forall₂_map_left_iff,
          List.forall₂_map_right_iff, List.forall₂_same]
        exact fun t _ => afterRestart_exchange t n
      obtain ⟨bs, hbs⟩ :=
        run_lose (Function.update w.nodes n (Node.new (net.config n))) [] hlost
      exact ⟨.restart n :: bs, Machine.run_cons_eq_some.mpr ⟨_, rfl, hbs⟩⟩
  | @connect x t r send ht hr hsend hwrite =>
      have hlistening := (hof ht).connecting hsend
      obtain rfl | ⟨bytes, _, rfl⟩ := hwrite
      · refine hone (step_failSend ht (by simp [hsend, SendTask.running]) ?_)
        simp [Transfer.exchange, hsend, hlistening, SendTask.pc, RecvTask.pc]
      · refine hnone (cluster_eq ht ?_)
        simp [Transfer.exchange, hsend, hlistening, SendTask.pc, RecvTask.pc]
  | @writeByte x t byte left ht hsend =>
      refine hnone (cluster_eq ht ?_)
      by_cases hleft : left = []
      · simp [Transfer.exchange, hsend, hleft, SendTask.pc]
      · simp [Transfer.exchange, hsend, hleft, SendTask.pc]
  | @readMore x t r reader reader' byte request ht hrecv hrequest hpush =>
      refine hnone (cluster_eq ht ?_)
      simp [Transfer.exchange, hrecv, RecvTask.pc]
  | @readFail x t r reader byte request ht hrecv hrequest =>
      refine hone (step_lose ht (by simp [hrecv]) ?_)
      simp [Transfer.exchange, RecvTask.pc]
  | @read x t r reader byte request msg live ht hrecv hrequest hpush hlive =>
      obtain ⟨rfl, _⟩ := (hof ht).message_of_push hlawful hrecv hrequest hpush
      have hsend := (hof ht).not_acked (by simp [hrecv])
      have hr := (hof ht).resolved r reader hrecv
      refine hone (b := .accept x) ?_
      have hex := exchanges_cluster ht
      have hinFlight : t.exchange.recv = .inFlight := by
        simp [Transfer.exchange, hsend, hrecv, RecvTask.pc]
      have hlive' : (w.cluster.nodes r).live.step (.callMerge t.exchange.msg.deltas) = some live :=
        hlive
      have hr' : net.resolve t.exchange.peerAddr = some r := hr
      simp only [Cluster.step, hex, hr', hinFlight, Option.bind_eq_bind, Option.bind_some, if_true,
        Cluster.storeStep, hlive', Option.map_some, cluster_setTransfer, cluster_setNode]
      simp [Transfer.exchange, hsend, RecvTask.pc, cluster]
  | @register x t r msg task delta updated ht hrecv htask =>
      obtain rfl := (hof ht).merging r msg task hrecv
      have hsend := (hof ht).not_acked (by simp [hrecv])
      refine hone (b := .register x) ?_
      have hmerging : t.exchange.recv = .merging r task := by
        simp [Transfer.exchange, hsend, hrecv, RecvTask.pc]
      have htask' : (w.cluster.nodes r).live.tasks[task]?
          = some (.merge delta (.returned updated)) := htask
      simp only [Cluster.step, exchanges_cluster ht, hmerging, htask', Option.bind_eq_bind,
        Option.bind_some, cluster_setTransfer, cluster_setNode]
      simp [Transfer.exchange, hsend, RecvTask.pc, cluster]
  | @writeAck x t r merged ack bytes ht hrecv hack hwrite =>
      have hsend := (hof ht).not_acked (by simp [hrecv])
      refine hone (b := .writeAck x) ?_
      have hregistered : t.exchange.recv = .registered r merged := by
        simp [Transfer.exchange, hsend, hrecv, RecvTask.pc]
      simp only [Cluster.step, exchanges_cluster ht, hregistered, Option.bind_eq_bind,
        Option.bind_some, cluster_setTransfer]
      simp [Transfer.exchange, hsend, RecvTask.pc, cluster, hack]
  | @writeAckFail x t r merged ht hrecv =>
      refine hone (step_lose ht (by simp [hrecv]) ?_)
      simp [Transfer.exchange, RecvTask.pc]
  | @writeAckByte x t r ack byte left ht hrecv =>
      refine hnone (cluster_eq ht ?_)
      by_cases hleft : left = []
      · simp [Transfer.exchange, hrecv, hleft, RecvTask.pc]
      · simp [Transfer.exchange, hrecv, hleft, RecvTask.pc]
  | @readAckMore x t reader reader' byte response ht hsend hresponse hpush =>
      refine hnone (cluster_eq ht ?_)
      simp [Transfer.exchange, hsend, SendTask.pc]
  | @readAckFail x t reader byte response ht hsend hresponse =>
      refine hone (step_failSend ht (by simp [hsend, SendTask.running]) ?_)
      simp [Transfer.exchange, hsend, SendTask.pc]
  | @readAck x t reader byte response ack ht hsend hresponse hpush =>
      have hdone := (hof ht).done_of_push hlawful hsend hresponse hpush
      refine hone (b := .recvAck x) ?_
      have hwaiting : t.exchange.send = .waiting := by simp [Transfer.exchange, hsend, SendTask.pc]
      have hacked : t.exchange.recv = .acked ack := by
        simp [Transfer.exchange, hsend, hdone, RecvTask.pc]
      simp only [Cluster.step, exchanges_cluster ht, hwaiting, hacked, Option.bind_eq_bind,
        Option.bind_some, cluster_setTransfer, cluster_setNode]
      simp [Transfer.exchange, SendTask.pc, cluster]
  | @failSend x t ht hsend =>
      refine hone (step_failSend ht hsend ?_)
      have hacked : t.send ≠ .acked := by
        intro hacked
        simp [hacked, SendTask.running] at hsend
      simp [Transfer.exchange, hacked, SendTask.pc]
  | @failRecv x t ht hrecv =>
      refine hone (step_lose ht ?_ ?_)
      · obtain ⟨_, _, hrecv⟩ | ⟨_, _, _, hrecv⟩ := hrecv <;> simp [hrecv]
      · simp [Transfer.exchange, RecvTask.pc]

theorem run_sound {as : List (WireAction ι)} (hlawful : codecs.Lawful)
    (hrun : Machine.run (step net codecs) (init net) as = some w) :
    (∀ t ∈ w.transfers, t.Sound net codecs)
      ∧ ∃ bs, Machine.run (Cluster.step net) (init net).cluster bs = some w.cluster := by
  refine Machine.run_simulates_runs (P := fun w => ∀ t ∈ w.transfers, t.Sound net codecs)
    ?_ (by simp [init]) hrun
  intro u a v hu hstep
  have hsteps := step_spec hstep
  exact ⟨hsteps.sound hlawful hu, hsteps.refines hlawful hu⟩

/-- **The byte streams refine the exchanges.** When the encodings are read back, every run of the
cluster with its connections is a run of the cluster, and what a receiver merges is the message that
was pushed. -/
theorem streams_refine_exchanges {as : List (WireAction ι)} (hlawful : codecs.Lawful)
    (hrun : Machine.run (step net codecs) (init net) as = some w) :
    (∃ bs, Machine.run (Cluster.step net) (Cluster.init net) bs = some w.cluster)
      ∧ ∀ t ∈ w.transfers, ∀ r msg task, t.recv = .merging r msg task → msg = t.msg := by
  obtain ⟨hsound, hruns⟩ := run_sound hlawful hrun
  exact ⟨hruns, fun t ht => (hsound t ht).merging⟩

/-- Node `a` of `twoNodes` introduces itself, in frames of 55 bytes and 26 bytes. -/
def introducesByBytes : List (WireAction Bool) :=
  [.node (.beginRound false), .node (.scanPeer false "10.0.0.2:7071"),
      .node (.startRound false [("10.0.0.2:7071", PeerInfo.new "10.0.0.2:7071")]),
      .node (.sendNext false []), .connect 0]
    ++ (List.replicate 55 [.writeByte 0, .readByte 0]).flatten
    ++ [.node (.advance true 0), .node (.advance true 0), .register 0, .writeAck 0]
    ++ (List.replicate 26 [.writeAckByte 0, .readAckByte 0]).flatten

theorem streams_refine_exchanges_introduction :
    ∃ w, Machine.run (step twoNodes bincode) (init twoNodes) introducesByBytes = some w
      ∧ w.cluster.exchanges.map Exchange.send = [.acked]
      ∧ (∃ bs, Machine.run (Cluster.step twoNodes) (Cluster.init twoNodes) bs = some w.cluster)
      ∧ ∀ t ∈ w.transfers, ∀ r msg task, t.recv = .merging r msg task → msg = t.msg := by
  have hrun : (Machine.run (step twoNodes bincode) (init twoNodes) introducesByBytes).any (fun w =>
      w.cluster.exchanges.map Exchange.send = [.acked]) := by
    decide +kernel
  obtain ⟨w, hrun, hsend⟩ := Machine.exists_of_any_run hrun
  exact ⟨w, hrun, of_decide_eq_true hsend, streams_refine_exchanges lawful_bincode hrun⟩

end WireCluster

end StateSync
