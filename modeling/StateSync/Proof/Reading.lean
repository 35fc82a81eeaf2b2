import StateSync.Proof.Framing
import StateSync.Gossip.Transfers

/-!
# Reading byte by byte

The reader that is fed with what arrives returns what `read_message` returns of the whole stream,
however the stream is cut into reads, takes nothing that follows the message, and never holds a
buffer of more than `maxMessageBytes`.
-/

namespace StateSync

open Wire

section

variable {T : Type} (bincode : Bincode T)

/-! ### The buffers -/

def Reader.buffered : Reader → Bytes
  | .length buffer => buffer
  | .payload _ buffer => buffer

/-- A buffer that is full is not kept, and none is longer than `maxMessageBytes`. -/
def Reader.Bounded : Reader → Prop
  | .length buffer => buffer.length < 4
  | .payload len buffer => buffer.length < len ∧ len ≤ maxMessageBytes

theorem Reader.bounded_start : Reader.start.Bounded := by
  simp [start, Bounded]

theorem Reader.bounded_fill {len : Nat} {buffer : Bytes} {reader : Reader}
    (hlen : len ≤ maxMessageBytes) (h : fill bincode len buffer = .more reader) :
    reader.Bounded := by
  unfold fill at h
  split at h
  · rename_i hlt
    obtain rfl := Progress.more.inj h
    exact ⟨hlt, hlen⟩
  · split at h
    · simp at h
    · simp at h

theorem Reader.bounded_push {reader reader' : Reader} {byte : UInt8} (hbounded : reader.Bounded)
    (h : reader.push bincode byte = .more reader') : reader'.Bounded := by
  cases reader with
  | length buffer =>
      simp only [push] at h
      split at h
      · rename_i hlt
        obtain rfl := Progress.more.inj h
        exact hlt
      · split at h
        · simp at h
        · rename_i hle
          exact bounded_fill bincode (Nat.not_lt.mp hle) h
  | payload len buffer => exact bounded_fill bincode hbounded.2 h

/-! ### The stream -/

@[simp]
theorem Progress.feed_nil (progress : Progress T) : progress.feed bincode [] = (progress, []) := by
  cases progress <;> rfl

@[simp]
theorem Progress.feed_message (msg : T) (rest : Bytes) :
    (Progress.message msg).feed bincode rest = (.message msg, rest) := by
  cases rest <;> rfl

@[simp]
theorem Progress.feed_failed (e : String) (rest : Bytes) :
    (Progress.failed (T := T) e).feed bincode rest = (.failed e, rest) := by
  cases rest <;> rfl

@[simp]
theorem Progress.feed_more (reader : Reader) (byte : UInt8) (rest : Bytes) :
    (Progress.more (T := T) reader).feed bincode (byte :: rest)
      = (reader.push bincode byte).feed bincode rest := rfl

/-- Where the stream is cut makes no difference. -/
theorem Progress.feed_append (progress : Progress T) (front back : Bytes) :
    progress.feed bincode (front ++ back)
      = (progress.feed bincode front).1.feed bincode
        ((progress.feed bincode front).2 ++ back) := by
  induction front generalizing progress with
  | nil => simp
  | cons byte front ih =>
      cases progress with
      | more reader =>
          rw [List.cons_append, feed_more, feed_more]
          exact ih (reader.push bincode byte)
      | message msg => simp
      | failed e => simp

theorem result_feed_full {len : Nat} {buffer : Bytes} (hfull : buffer.length = len)
    (input : Bytes) :
    Progress.result ((Reader.fill bincode len buffer).feed bincode input)
      = match bincode.deserialize buffer with
        | .error e => .error ("gossip decode: " ++ e)
        | .ok msg => .ok (msg, input) := by
  rw [Reader.fill, if_neg (Nat.not_lt.mpr hfull.ge)]
  cases bincode.deserialize buffer with
  | error e => simp [Progress.result]
  | ok msg => simp [Progress.result]

theorem result_feed_fill {len : Nat} {buffer input : Bytes} (hle : buffer.length ≤ len) :
    Progress.result ((Reader.fill bincode len buffer).feed bincode input)
      = (readExact len (buffer ++ input)).bind fun (payload, left) =>
          match bincode.deserialize payload with
          | .error e => .error ("gossip decode: " ++ e)
          | .ok msg => .ok (msg, left) := by
  induction input generalizing buffer with
  | nil =>
      obtain hlt | heq := lt_or_eq_of_le hle
      · rw [List.append_nil, readExact_of_lt hlt, Reader.fill, if_pos hlt]
        rfl
      · rw [readExact_append [] heq, result_feed_full bincode heq]
        rfl
  | cons byte input ih =>
      obtain hlt | heq := lt_or_eq_of_le hle
      · have hnext := ih (show (buffer ++ [byte]).length ≤ len by
          rw [List.length_append, List.length_singleton]
          omega)
        rw [List.append_assoc, List.singleton_append] at hnext
        rw [Reader.fill, if_pos hlt, Progress.feed_more, ← hnext]
        rfl
      · rw [readExact_append (byte :: input) heq, result_feed_full bincode heq]
        rfl

theorem result_feed_length {buffer input : Bytes} (hlt : buffer.length < 4) :
    Progress.result ((Progress.more (.length buffer)).feed bincode input)
      = readMessage bincode (buffer ++ input) := by
  induction input generalizing buffer with
  | nil =>
      rw [List.append_nil, readMessage, readExact_of_lt hlt]
      rfl
  | cons byte input ih =>
      rw [Progress.feed_more, Reader.push]
      have happend : buffer ++ byte :: input = (buffer ++ [byte]) ++ input := by simp
      split
      · rename_i hshort
        rw [ih hshort, happend]
      · rename_i hfull
        have hfour : (buffer ++ [byte]).length = 4 := by
          rw [List.length_append, List.length_singleton] at hfull ⊢
          omega
        rw [happend, readMessage, readExact_append input hfour]
        simp only [bind, Except.bind]
        split
        · rw [Progress.feed_failed]
          rfl
        · rw [result_feed_fill bincode (Nat.zero_le _), List.nil_append]
          rfl

/-- **Reading byte by byte** comes to the same as reading the whole stream at once. -/
theorem result_feed_start (input : Bytes) :
    Progress.result ((Progress.more Reader.start).feed bincode input) = readMessage bincode input :=
  result_feed_length bincode (show ([] : Bytes).length < 4 by decide)

theorem bounded_feed {input rest : Bytes} {reader reader' : Reader} (hbounded : reader.Bounded)
    (h : (Progress.more reader).feed bincode input = (.more reader', rest)) : reader'.Bounded := by
  induction input generalizing reader with
  | nil =>
      obtain ⟨heq, _⟩ := Prod.mk.inj h
      exact Progress.more.inj heq ▸ hbounded
  | cons byte input ih =>
      rw [Progress.feed_more] at h
      cases hpush : reader.push bincode byte with
      | more next =>
          rw [hpush] at h
          exact ih (Reader.bounded_push bincode hbounded hpush) h
      | message msg => simp [hpush] at h
      | failed e => simp [hpush] at h

/-- The reader is given one piece after the other, each behind what it has left. -/
def feedPieces (pieces : List Bytes) : Progress T × Bytes :=
  pieces.foldl (fun state piece => state.1.feed bincode (state.2 ++ piece))
    (.more Reader.start, [])

theorem feedPieces_eq (pieces : List Bytes) :
    feedPieces bincode pieces = (Progress.more Reader.start).feed bincode pieces.flatten := by
  unfold feedPieces
  induction pieces using List.reverseRecOn with
  | nil => simp
  | append_singleton pieces piece ih =>
      rw [List.foldl_append, ih, List.flatten_append, List.flatten_singleton,
        Progress.feed_append]
      rfl

/-- **Reading in pieces.** However the stream is cut into pieces, the reader returns what
`read_message` returns of the whole, and leaves what that leaves. After every piece its buffer has
at most `maxMessageBytes` bytes, whoever wrote them. -/
theorem read_in_pieces (pieces : List Bytes) :
    Progress.result (feedPieces bincode pieces) = readMessage bincode pieces.flatten
      ∧ ∀ reader, (feedPieces bincode pieces).1 = .more reader →
        reader.buffered.length ≤ maxMessageBytes := by
  rw [feedPieces_eq]
  refine ⟨result_feed_start bincode _, ?_⟩
  intro reader hreader
  have hbounded := bounded_feed bincode Reader.bounded_start (Prod.ext hreader rfl)
  cases reader with
  | length buffer => exact (Nat.le_of_lt hbounded).trans (by decide)
  | payload len buffer => exact (Nat.le_of_lt hbounded.1).trans hbounded.2

/-! ### A message on its way -/

/-- The bytes of a message on the stream, none if it cannot be encoded. -/
def frame (msg : T) : Bytes :=
  match writeMessage bincode msg with
  | .ok bytes => bytes
  | .error _ => []

/-- The reader has taken these bytes and wants more. -/
def Reader.After (bytes : Bytes) (reader : Reader) : Prop :=
  (Progress.more Reader.start).feed bincode bytes = (.more reader, [])

end

section

variable {T : Type} {bincode : Bincode T} {msg msg' : T} {front back rest : Bytes}
  {reader reader' : Reader} {byte : UInt8}

theorem writeMessage_ok_frame (h : writeMessage bincode msg = .ok front) :
    frame bincode msg = front := by
  rw [frame, h]

theorem Reader.after_start : Reader.After bincode [] Reader.start := Progress.feed_nil _ _

theorem Reader.After.feed (h : Reader.After bincode front reader) (byte : UInt8) :
    (Progress.more Reader.start).feed bincode (front ++ [byte])
      = (reader.push bincode byte, []) := by
  rw [Progress.feed_append, h]
  simp

theorem Reader.After.push (h : Reader.After bincode front reader)
    (hpush : reader.push bincode byte = .more reader') :
    Reader.After bincode (front ++ [byte]) reader' := by
  rw [Reader.After, h.feed, hpush]

theorem readMessage_of_feed
    (h : (Progress.more Reader.start).feed bincode front = (.message msg, rest)) :
    readMessage bincode front = .ok (msg, rest) := by
  rw [← result_feed_start, h]
  rfl

theorem feed_of_result {progress : Progress T × Bytes}
    (h : Progress.result progress = .ok (msg, rest)) : progress = (.message msg, rest) := by
  obtain ⟨progress, left⟩ := progress
  cases progress with
  | more reader => simp [Progress.result] at h
  | message msg' =>
      obtain ⟨rfl, rfl⟩ := Prod.mk.inj (Except.ok.inj h)
      rfl
  | failed e => simp [Progress.result] at h

/-- Of a message or a part of it no other message is read, and not the message of a part or when it
is too long. -/
theorem message_of_feed (hlawful : bincode.Lawful) (hfront : front <+: frame bincode msg)
    (hfeed : (Progress.more Reader.start).feed bincode front = (.message msg', rest)) :
    msg' = msg ∧ front = frame bincode msg
      ∧ ∃ payload, bincode.serialize msg = .ok payload ∧ payload.length ≤ maxMessageBytes := by
  obtain ⟨back, hback⟩ := hfront
  cases hwritten : writeMessage bincode msg with
  | error e =>
      have hnil : front = [] := by
        rw [frame, hwritten, List.append_eq_nil_iff] at hback
        exact hback.1
      rw [hnil, Progress.feed_nil] at hfeed
      simp at hfeed
  | ok written =>
      rw [writeMessage_ok_frame hwritten] at hback ⊢
      obtain ⟨payload, hpayload, rfl⟩ := writeMessage_eq_ok.mp hwritten
      have hwhole : readMessage bincode (front ++ back) = .ok (msg', rest ++ back) := by
        apply readMessage_of_feed
        rw [Progress.feed_append, hfeed, Progress.feed_message]
      rw [hback] at hwhole
      obtain hle | hgt := le_or_gt payload.length maxMessageBytes
      · have hread := readMessage_of_le hlawful hpayload hle []
        rw [List.append_nil, hwhole] at hread
        obtain ⟨hmsg, hnil⟩ := Prod.mk.inj (Except.ok.inj hread)
        obtain ⟨_, rfl⟩ := List.append_eq_nil_iff.mp hnil
        rw [List.append_nil] at hback
        exact ⟨hmsg, hback, payload, hpayload, hle⟩
      · obtain ⟨e, he⟩ := readMessage_of_gt hlawful hpayload hgt
        simp [he] at hwhole

end

end StateSync
