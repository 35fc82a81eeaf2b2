import StateSync.Proof.Transfers
import StateSync.Proof.Circulation

/-!
# Which messages can arrive

A message that was pushed to a node that listens can be read there if and only if its encoding has
at most `maxMessageBytes` bytes. The writer does not ask, so that a larger delta is pushed again in
every round and never merged.
-/

namespace StateSync.WireCluster

open Wire

variable {ι : Type} [DecidableEq ι] {net : Network ι} {codecs : Codecs} {w w' : WireCluster ι}

omit [DecidableEq ι] in
theorem kept_setTransfer {x y : Nat} {t t' t₀ : Transfer ι} (ht : w.transfers[x]? = some t)
    (hmsg : t'.msg = t.msg) (hy : w.transfers[y]? = some t₀) :
    ∃ t₁, (w.transfers.set x t')[y]? = some t₁ ∧ t₁.msg = t₀.msg := by
  by_cases hxy : x = y
  · subst hxy
    obtain ⟨hlt, _⟩ := List.getElem?_eq_some_iff.mp ht
    obtain rfl := Option.some.inj (ht.symm.trans hy)
    exact ⟨t', List.getElem?_set_self hlt, hmsg⟩
  · exact ⟨t₀, by rw [List.getElem?_set_ne hxy, hy], rfl⟩

theorem Steps.msg_kept {a : WireAction ι} (hsteps : Steps net codecs w a w') {y : Nat}
    {t₀ : Transfer ι} (hy : w.transfers[y]? = some t₀) :
    ∃ t₁, w'.transfers[y]? = some t₁ ∧ t₁.msg = t₀.msg := by
  cases hsteps with
  | node ha hstep =>
      obtain ⟨hlt, _⟩ := List.getElem?_eq_some_iff.mp hy
      exact ⟨t₀, by rw [List.getElem?_append_left hlt, hy], rfl⟩
  | restart n => exact ⟨t₀.afterRestart n, by simp [hy], rfl⟩
  | connect ht hr hsend hwrite => exact kept_setTransfer ht rfl hy
  | writeByte ht hsend => exact kept_setTransfer ht rfl hy
  | readMore ht hrecv hrequest hpush => exact kept_setTransfer ht rfl hy
  | readFail ht hrecv hrequest => exact kept_setTransfer ht rfl hy
  | read ht hrecv hrequest hpush hlive => exact kept_setTransfer (w := w) ht rfl hy
  | register ht hrecv htask => exact kept_setTransfer (w := w) ht rfl hy
  | writeAck ht hrecv hack hwrite => exact kept_setTransfer ht rfl hy
  | writeAckFail ht hrecv => exact kept_setTransfer ht rfl hy
  | writeAckByte ht hrecv => exact kept_setTransfer ht rfl hy
  | readAckMore ht hsend hresponse hpush => exact kept_setTransfer ht rfl hy
  | readAckFail ht hsend hresponse => exact kept_setTransfer ht rfl hy
  | readAck ht hsend hresponse hpush => exact kept_setTransfer (w := w) ht rfl hy
  | failSend ht hsend => exact kept_setTransfer ht rfl hy
  | failRecv ht hrecv => exact kept_setTransfer ht rfl hy

theorem run_msg_kept {as : List (WireAction ι)}
    (hrun : Machine.run (step net codecs) w as = some w') {y : Nat} {t₀ : Transfer ι}
    (hy : w.transfers[y]? = some t₀) :
    ∃ t₁, w'.transfers[y]? = some t₁ ∧ t₁.msg = t₀.msg := by
  refine Machine.run_invariant (P := fun w : WireCluster ι =>
    ∃ t₁, w.transfers[y]? = some t₁ ∧ t₁.msg = t₀.msg) ?_ ⟨t₀, hy, rfl⟩ hrun
  rintro u a v ⟨t₁, ht₁, hmsg₁⟩ hstep
  obtain ⟨t₂, ht₂, hmsg₂⟩ := (step_spec hstep).msg_kept ht₁
  exact ⟨t₂, ht₂, hmsg₂.trans hmsg₁⟩

variable (net codecs) in
theorem step_readByte {x : Nat} {t : Transfer ι} {r : ι} {reader : Reader} {byte : UInt8}
    (ht : w.transfers[x]? = some t) (hrecv : t.recv = .reading r reader)
    (hrequest : t.request = [byte]) :
    ∃ w' t', w.step net codecs (.readByte x) = some w' ∧ w'.transfers[x]? = some t'
      ∧ t'.send = t.send ∧ t'.request = []
      ∧ match reader.push codecs.message byte with
        | .more reader' => t'.recv = .reading r reader'
        | .failed _ => t'.recv = .failed
        | .message msg => ∃ task, t'.recv = .merging r msg task := by
  obtain ⟨hlt, _⟩ := List.getElem?_eq_some_iff.mp ht
  have hset (t' : Transfer ι) : (w.transfers.set x t')[x]? = some t' := List.getElem?_set_self hlt
  simp only [step, ht, hrecv, hrequest, Option.bind_eq_bind, Option.bind_some]
  cases reader.push codecs.message byte with
  | more reader' => exact ⟨_, _, rfl, hset _, rfl, rfl, rfl⟩
  | failed e => exact ⟨_, _, rfl, hset _, rfl, rfl, rfl⟩
  | message msg => exact ⟨_, _, rfl, hset _, rfl, rfl, _, rfl⟩

variable (net codecs) in
/-- One byte is written and read. -/
theorem run_byte {x : Nat} {t : Transfer ι} {r : ι} {reader : Reader} {byte : UInt8} {left : Bytes}
    (ht : w.transfers[x]? = some t) (hsend : t.send = .writing (byte :: left))
    (hrecv : t.recv = .reading r reader) (hrequest : t.request = []) :
    ∃ w' t', Machine.run (step net codecs) w [.writeByte x, .readByte x] = some w'
      ∧ w'.transfers[x]? = some t' ∧ (left ≠ [] → t'.send = .writing left) ∧ t'.request = []
      ∧ match reader.push codecs.message byte with
        | .more reader' => t'.recv = .reading r reader'
        | .failed _ => t'.recv = .failed
        | .message msg => ∃ task, t'.recv = .merging r msg task := by
  obtain ⟨hlt, _⟩ := List.getElem?_eq_some_iff.mp ht
  obtain ⟨w₁, hwrite, ht₁⟩ : ∃ w₁, w.step net codecs (.writeByte x) = some w₁
      ∧ w₁.transfers[x]? = some { t with
        send := if left = [] then .reading Reader.start else .writing left
        request := [byte] } := by
    refine ⟨_, by simp [step, ht, hsend]; rfl, ?_⟩
    simp [setTransfer, hlt, hrequest]
  obtain ⟨w', t', hread, ht', hsend', hrest⟩ :=
    step_readByte net codecs ht₁ hrecv rfl
  refine ⟨w', t', ?_, ht', ?_, hrest⟩
  · exact Machine.run_cons_eq_some.mpr ⟨w₁, hwrite, Machine.run_cons_eq_some.mpr ⟨w', hread, rfl⟩⟩
  · intro hleft
    rw [hsend', if_neg hleft]

variable (net codecs) in
/-- The rest of a frame is written and read. -/
theorem run_bytes {x : Nat} {left : Bytes} {t : Transfer ι} {r : ι} {reader : Reader}
    {msg : GossipMessage} (hleft : left ≠ []) (ht : w.transfers[x]? = some t)
    (hsend : t.send = .writing left) (hrecv : t.recv = .reading r reader)
    (hrequest : t.request = [])
    (hfeed : (Progress.more reader).feed codecs.message left = (.message msg, [])) :
    ∃ bs w' t', Machine.run (step net codecs) w bs = some w' ∧ w'.transfers[x]? = some t'
      ∧ ∃ task, t'.recv = .merging r msg task := by
  induction left generalizing w t reader with
  | nil => exact absurd rfl hleft
  | cons byte left ih =>
      obtain ⟨u, t₁, hrun, ht₁, hsend₁, hrequest₁, hmoves⟩ :=
        run_byte net codecs ht hsend hrecv hrequest
      rw [Progress.feed_more] at hfeed
      cases hpush : reader.push codecs.message byte with
      | more reader' =>
          rw [hpush] at hmoves hfeed
          have hmore : left ≠ [] := by
            rintro rfl
            simp at hfeed
          obtain ⟨bs, w', t', hbs, ht', hrecv'⟩ :=
            ih hmore ht₁ (hsend₁ hmore) hmoves hrequest₁ hfeed
          exact ⟨_, w', t', Machine.run_append_eq_some.mpr ⟨u, hrun, hbs⟩, ht', hrecv'⟩
      | message msg' =>
          rw [hpush] at hmoves hfeed
          obtain ⟨rfl, _⟩ : msg' = msg ∧ left = [] := by simpa using hfeed
          exact ⟨_, u, t₁, hrun, ht₁, hmoves⟩
      | failed e =>
          rw [hpush] at hfeed
          simp at hfeed

/-- **Which messages can arrive.** While the sender is connecting to a node that listens, the
message can still be read there if and only if its encoding has at most `maxMessageBytes` bytes. -/
theorem can_be_read_iff {as : List (WireAction ι)} (hlawful : codecs.Lawful)
    (hrun : Machine.run (step net codecs) (init net) as = some w) {x : Nat} {t : Transfer ι} {r : ι}
    (ht : w.transfers[x]? = some t) (hsend : t.send = .connecting)
    (hr : net.resolve t.peerAddr = some r) :
    (∃ bs w' t', Machine.run (step net codecs) w bs = some w' ∧ w'.transfers[x]? = some t'
        ∧ t'.recv.hasRead = true)
      ↔ ∃ payload, codecs.message.serialize t.msg = .ok payload
        ∧ payload.length ≤ maxMessageBytes := by
  constructor
  · rintro ⟨bs, w', t', hbs, ht', hread⟩
    obtain ⟨t₁, ht₁, hmsg⟩ := run_msg_kept hbs ht
    obtain rfl := Option.some.inj (ht'.symm.trans ht₁)
    obtain ⟨hsound, _⟩ := run_sound hlawful (Machine.run_append_eq_some.mpr ⟨w, hrun, hbs⟩)
    rw [← hmsg]
    exact (hsound t' (List.mem_of_getElem? ht')).fits hread
  · rintro ⟨payload, hpayload, hle⟩
    obtain ⟨hlt, _⟩ := List.getElem?_eq_some_iff.mp ht
    obtain ⟨hsound, _⟩ := run_sound hlawful hrun
    have hs := hsound t (List.mem_of_getElem? ht)
    obtain ⟨taken, _, hempty, _⟩ := hs.request
    have hrequest := (List.append_eq_nil_iff.mp (hempty (hs.connecting hsend))).2
    obtain ⟨bytes, hbytes⟩ : ∃ bytes, bytes = toBeBytes (UInt32.ofNat payload.length) ++ payload :=
      ⟨_, rfl⟩
    have hwritten := writeMessage_eq_ok.mpr ⟨payload, hpayload, hbytes⟩
    have hread := readMessage_of_le hlawful.message hpayload hle []
    rw [List.append_nil, ← hbytes, ← result_feed_start] at hread
    have hne : bytes ≠ [] := by simp [hbytes, toBeBytes]
    obtain ⟨w₁, hconnect, ht₁⟩ : ∃ w₁, w.step net codecs (.connect x) = some w₁
        ∧ w₁.transfers[x]? = some { t with
          send := .writing bytes, recv := .reading r Reader.start } := by
      refine ⟨_, by simp [step, ht, hr, hsend, hwritten]; rfl, ?_⟩
      simp [setTransfer, hlt]
    obtain ⟨bs, w', t', hbs, ht', task, hrecv⟩ :=
      run_bytes net codecs hne ht₁ rfl rfl hrequest (feed_of_result hread)
    refine ⟨.connect x :: bs, w', t', ?_, ht', by rw [hrecv]; rfl⟩
    exact Machine.run_cons_eq_some.mpr ⟨w₁, hconnect, hbs⟩

/-- The push of `twoNodes` that introduces node `a`. -/
def introduction : Transfer Bool :=
  Transfer.start
    { sender := false, peerId := "10.0.0.2:7071", peerAddr := "10.0.0.2:7071"
      msg := { fromNodeId := "node-a", fromGossipAddr := "10.0.0.1:7071", deltas := []
               generation := 0 }
      maxSentTs := 0, send := .waiting, recv := .inFlight }

theorem can_be_read_iff_introduction :
    ∃ w, Machine.run (step twoNodes bincode) (init twoNodes) [.node (.beginRound false),
        .node (.scanPeer false "10.0.0.2:7071"), .node (.startRound false [Cluster.seedCopy]),
        .node (.sendNext false [])] = some w
      ∧ w.transfers[0]? = some introduction
      ∧ ∃ bs w' t', Machine.run (step twoNodes bincode) w bs = some w'
        ∧ w'.transfers[0]? = some t' ∧ t'.recv.hasRead = true := by
  have hrun : (Machine.run (step twoNodes bincode) (init twoNodes) [.node (.beginRound false),
      .node (.scanPeer false "10.0.0.2:7071"), .node (.startRound false [Cluster.seedCopy]),
      .node (.sendNext false [])]).any (fun w => w.transfers[0]? = some introduction) := by
    decide +kernel
  have hfits : (GossipMessage.format.write introduction.msg).any (fun payload =>
      payload.length ≤ maxMessageBytes) := by
    decide +kernel
  obtain ⟨w, hrun, ht⟩ := Machine.exists_of_any_run hrun
  obtain ⟨payload, hpayload, hle⟩ := (Option.any_eq_true _ _).mp hfits
  have ht := of_decide_eq_true ht
  refine ⟨w, hrun, ht, (can_be_read_iff lawful_bincode hrun ht rfl (r := true) (by decide)).mpr ?_⟩
  exact ⟨payload, Bincode.serialize_ofFormat.mpr hpayload, of_decide_eq_true hle⟩

end StateSync.WireCluster
