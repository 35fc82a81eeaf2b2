import StateSync.Gossip.Protocol

/-!
# What is written can be read

The reader takes a message off the stream exactly when its encoding is no longer than
`maxMessageBytes`. A longer one is written all the same: the reader refuses the length, or, where
the 32 bits of the length have wrapped, decodes too few bytes. For the two kinds of messages the
encoding itself is written out as a `Format`, which gives `Bincode.Lawful`.
-/

namespace StateSync

open Wire

variable {T : Type} {bincode : Bincode T} {msg : T} {payload : Bytes}

/-- What the reader accepts, the writer's cut to 32 bits has not changed. -/
theorem length_mod_of_le (hle : payload.length ≤ maxMessageBytes) :
    payload.length % 2 ^ 32 = payload.length := by
  apply Nat.mod_eq_of_lt
  rw [maxMessageBytes] at hle
  omega

theorem readMessage_of_le (hlawful : bincode.Lawful)
    (hpayload : bincode.serialize msg = .ok payload)
    (hle : payload.length ≤ maxMessageBytes) (tail : Bytes) :
    readMessage bincode (toBeBytes (UInt32.ofNat payload.length) ++ payload ++ tail)
      = .ok (msg, tail) := by
  rw [List.append_assoc, readMessage_frame, length_mod_of_le hle, if_neg (Nat.not_lt.mpr hle),
    readExact_append tail rfl]
  simp [Except.bind, hlawful.roundTrip msg payload hpayload]

/-- A frame that is cut off is an error, whatever its length says. -/
theorem readMessage_cut {front back : Bytes}
    (hcut : toBeBytes (UInt32.ofNat payload.length) ++ payload = front ++ back) (hback : back ≠ [])
    (hle : payload.length ≤ maxMessageBytes) : ∃ e, readMessage bincode front = .error e := by
  have hlength := congrArg List.length hcut
  have hpos := List.length_pos_iff.mpr hback
  rw [List.length_append, List.length_append, length_toBeBytes] at hlength
  obtain ⟨rest, hrest, hne⟩ | ⟨rest, rfl, _⟩ := cut_append hcut.symm
  · apply readMessage_short
    have hfour := congrArg List.length hrest
    rw [List.length_append, length_toBeBytes] at hfour
    have := List.length_pos_iff.mpr hne
    omega
  · rw [List.length_append, length_toBeBytes] at hlength
    rw [readMessage_frame, length_mod_of_le hle, if_neg (Nat.not_lt.mpr hle),
      readExact_of_lt (by omega)]
    exact ⟨_, rfl⟩

theorem readMessage_of_gt (hlawful : bincode.Lawful)
    (hpayload : bincode.serialize msg = .ok payload)
    (hgt : maxMessageBytes < payload.length) :
    ∃ e, readMessage bincode (toBeBytes (UInt32.ofNat payload.length) ++ payload) = .error e := by
  rw [readMessage_frame]
  split
  · exact ⟨_, rfl⟩
  · -- the length has wrapped, and the reader decodes a strict prefix of the encoding
    rename_i hwrapped
    have hle : payload.length % 2 ^ 32 ≤ payload.length := Nat.mod_le _ _
    generalize payload.length % 2 ^ 32 = n at hwrapped hle
    have hsplit := List.take_append_drop n payload
    have htake : (payload.take n).length = n := by
      rw [List.length_take, Nat.min_eq_left hle]
    have hdrop : payload.drop n ≠ [] := by
      rw [Ne, List.drop_eq_nil_iff]
      omega
    obtain ⟨e, he⟩ := hlawful.strictPrefix msg _ _ (hsplit.symm ▸ hpayload) hdrop
    have hread := readExact_append (payload.drop n) htake
    rw [hsplit] at hread
    refine ⟨"gossip decode: " ++ e, ?_⟩
    simp only [hread, Except.bind, he]

/-- **What is written can be read** if and only if its encoding has at most `maxMessageBytes`
bytes. -/
theorem readable_iff_le_maxMessageBytes (hlawful : bincode.Lawful) {written : Bytes}
    (hwritten : writeMessage bincode msg = .ok written) :
    Readable bincode msg written ↔
      ∃ payload, bincode.serialize msg = .ok payload ∧ payload.length ≤ maxMessageBytes := by
  obtain ⟨payload, hpayload, rfl⟩ := writeMessage_eq_ok.mp hwritten
  constructor
  · intro h
    refine ⟨payload, hpayload, Nat.not_lt.mp fun hgt => ?_⟩
    obtain ⟨e, he⟩ := readMessage_of_gt hlawful hpayload hgt
    have hok := h.1 []
    rw [List.append_nil, he] at hok
    simp at hok
  · rintro ⟨payload', hpayload', hle⟩
    obtain rfl : payload = payload' := Except.ok.inj (hpayload.symm.trans hpayload')
    exact ⟨readMessage_of_le hlawful hpayload hle,
      fun front back hcut hback => readMessage_cut hcut hback hle⟩

/-! ### The encoding -/

/-- `bincode::serialize` and `bincode::deserialize`, which ignores what follows the value. -/
def Bincode.ofFormat {T : Type} (format : Format T) : Bincode T where
  serialize msg := match format.write msg with
    | some payload => .ok payload
    | none => .error "the size limit has been reached"
  deserialize bytes := match format.read bytes with
    | some (msg, _) => .ok msg
    | none => .error "io error: unexpected end of file"

theorem Bincode.serialize_ofFormat {T : Type} {format : Format T} {msg : T} {payload : Bytes} :
    (Bincode.ofFormat format).serialize msg = .ok payload ↔ format.write msg = some payload := by
  simp only [Bincode.ofFormat]
  cases format.write msg with
  | none => simp
  | some bytes => simp

theorem Bincode.lawful_ofFormat {T : Type} (format : Format T) :
    (Bincode.ofFormat format).Lawful where
  roundTrip := by
    intro msg payload h
    have hread := format.read_write msg payload [] (Bincode.serialize_ofFormat.mp h)
    rw [List.append_nil] at hread
    simp [Bincode.ofFormat, hread]
  strictPrefix := by
    intro msg front back h hback
    have hread := format.read_cut msg front back (Bincode.serialize_ofFormat.mp h) hback
    refine ⟨"io error: unexpected end of file", ?_⟩
    simp only [Bincode.ofFormat, hread]

def LwwValue.format : Format LwwValue :=
  (Format.text.pair ((Format.uint 8).pair Format.text)).via
    (fun (value, timestamp, nodeId) => some ⟨value, timestamp, nodeId⟩)
    (fun v => some (v.value, v.timestamp, v.nodeId)) (by
      intro v fields h
      obtain rfl := Option.some.inj h
      rfl)

def GossipMessage.format : Format GossipMessage :=
  (Format.text.pair (Format.text.pair
      ((Format.seq (Format.text.pair LwwValue.format)).pair (Format.uint 8)))).via
    (fun (fromNodeId, fromGossipAddr, deltas, generation) =>
      some ⟨fromNodeId, fromGossipAddr, deltas, generation⟩)
    (fun msg => some (msg.fromNodeId, msg.fromGossipAddr, msg.deltas, msg.generation)) (by
      intro msg fields h
      obtain rfl := Option.some.inj h
      rfl)

def GossipAck.format : Format GossipAck :=
  (Format.text.pair (Format.uint 8)).via (fun (fromNodeId, mergedCount) =>
      some ⟨fromNodeId, mergedCount⟩)
    (fun ack => some (ack.fromNodeId, ack.mergedCount)) (by
      intro ack fields h
      obtain rfl := Option.some.inj h
      rfl)

theorem readable_iff_le_maxMessageBytes_ack :
    ∃ written, writeMessage (Bincode.ofFormat GossipAck.format) ⟨"node-b", 2⟩ = .ok written
      ∧ Readable (Bincode.ofFormat GossipAck.format) ⟨"node-b", 2⟩ written := by
  have hpayload : (Bincode.ofFormat GossipAck.format).serialize ⟨"node-b", 2⟩
      = .ok [6, 0, 0, 0, 0, 0, 0, 0, 110, 111, 100, 101, 45, 98, 2, 0, 0, 0, 0, 0, 0, 0] := by
    rw [Bincode.serialize_ofFormat]
    decide +kernel
  have hwritten := writeMessage_eq_ok.mpr ⟨_, hpayload, rfl⟩
  exact ⟨_, hwritten, (readable_iff_le_maxMessageBytes (Bincode.lawful_ofFormat _) hwritten).mpr
    ⟨_, hpayload, by decide⟩⟩

/-- A message with one entry, whose value is `n` characters long. -/
def filledMessage (n : Nat) : GossipMessage where
  fromNodeId := "node-a"
  fromGossipAddr := "10.0.0.1:7071"
  deltas := [("k", ⟨String.ofList (List.replicate n 'x'), 1, "node-a"⟩)]
  generation := 0

theorem length_encode_replicate (n : Nat) :
    (Lines.encode (String.ofList (List.replicate n 'x')).toList).length = n := by
  have hx : String.utf8EncodeChar 'x' = [120] := by decide +kernel
  simp [Lines.encode, List.flatMap_replicate, hx]

theorem write_filledMessage {n : Nat} (hn : n < 256 ^ 8) :
    ∃ payload, GossipMessage.format.write (filledMessage n) = some payload
      ∧ n < payload.length := by
  have htext := Format.write_text (s := String.ofList (List.replicate n 'x')) (by
    rw [length_encode_replicate]
    exact hn)
  have hstring (s : String) (hs : (Lines.encode s.toList).length < 256 ^ 8) := Format.write_text hs
  have hvalue : LwwValue.format.write ⟨String.ofList (List.replicate n 'x'), 1, "node-a"⟩ = _ :=
    Format.write_pair htext (Format.write_pair (Format.write_uint (n := 1) (by decide))
      (hstring "node-a" (by decide +kernel)))
  have hdeltas := Format.write_seq_singleton
    (Format.write_pair (hstring "k" (by decide +kernel)) hvalue)
  have hmsg : GossipMessage.format.write (filledMessage n) = _ :=
    Format.write_pair (hstring "node-a" (by decide +kernel))
      (Format.write_pair (hstring "10.0.0.1:7071" (by decide +kernel))
        (Format.write_pair hdeltas (Format.write_uint (n := 0) (by decide))))
  refine ⟨_, hmsg, ?_⟩
  simp only [List.length_append, Format.length_toLeBytes, length_encode_replicate]
  omega

/-- A value of 16 MiB is written, and the reader refuses it. -/
theorem filledMessage_not_readable :
    ∃ written, writeMessage (Bincode.ofFormat GossipMessage.format) (filledMessage maxMessageBytes)
        = .ok written
      ∧ (∃ e, readMessage (Bincode.ofFormat GossipMessage.format) written = .error e)
      ∧ ¬ Readable (Bincode.ofFormat GossipMessage.format) (filledMessage maxMessageBytes)
          written := by
  obtain ⟨payload, hwrite, hgt⟩ := write_filledMessage (n := maxMessageBytes) (by decide)
  have hpayload := Bincode.serialize_ofFormat.mpr hwrite
  obtain ⟨e, he⟩ := readMessage_of_gt (Bincode.lawful_ofFormat _) hpayload hgt
  refine ⟨_, writeMessage_eq_ok.mpr ⟨payload, hpayload, rfl⟩, ⟨e, he⟩, fun h => ?_⟩
  have hok := h.1 []
  rw [List.append_nil, he] at hok
  simp at hok

end StateSync
