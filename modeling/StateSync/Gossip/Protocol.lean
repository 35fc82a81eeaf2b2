import StateSync.Gossip.Node
import StateSync.Lib.Wire

/-!
# Messages on the wire

A message is written as its length in four bytes and then its encoding. The encoding is the work of
a library, which is a parameter here: `Bincode` is what the code calls, and `Bincode.Lawful` what it
relies on. The writer cuts the length to 32 bits, the reader refuses more than `maxMessageBytes`,
and neither asks what the other does.
-/

namespace StateSync

open Wire

structure Bincode (T : Type) where
  serialize : T → Except String Bytes
  deserialize : Bytes → Except String T

/-- A message is read back from its encoding, and not from less. -/
structure Bincode.Lawful {T : Type} (bincode : Bincode T) : Prop where
  roundTrip : ∀ msg payload, bincode.serialize msg = .ok payload →
    bincode.deserialize payload = .ok msg
  strictPrefix : ∀ msg front back, bincode.serialize msg = .ok (front ++ back) → back ≠ [] →
    ∃ e, bincode.deserialize front = .error e

def maxMessageBytes : Nat := 16 * 1024 * 1024

/-- `u32::to_be_bytes` -/
def toBeBytes (n : UInt32) : Bytes :=
  [UInt8.ofNat (n.toNat / 2 ^ 24), UInt8.ofNat (n.toNat / 2 ^ 16), UInt8.ofNat (n.toNat / 2 ^ 8),
    UInt8.ofNat n.toNat]

/-- `u32::from_be_bytes` -/
def fromBeBytes (bytes : Bytes) : UInt32 :=
  UInt32.ofNat (bytes.foldl (fun n byte => n * 2 ^ 8 + byte.toNat) 0)

/-- `read_exact`: the bytes read and those that are left. -/
def readExact (n : Nat) (input : Bytes) : Except String (Bytes × Bytes) :=
  if n ≤ input.length then .ok (input.take n, input.drop n) else .error "early eof"

section

variable {T : Type} (bincode : Bincode T)

/-- The bytes `write_message` puts on the stream, when it succeeds. -/
def writeMessage (msg : T) : Except String Bytes :=
  match bincode.serialize msg with
  | .error e => .error ("gossip encode: " ++ e)
  | .ok payload => .ok (toBeBytes (UInt32.ofNat payload.length) ++ payload)

/-- The message `read_message` takes off the stream, and what it leaves there. -/
def readMessage (input : Bytes) : Except String (T × Bytes) := do
  let (lenBuf, input) ← readExact 4 input
  let len := (fromBeBytes lenBuf).toNat
  if len > maxMessageBytes then
    .error ("gossip message too large: " ++ toString len ++ " bytes (max "
      ++ toString maxMessageBytes ++ ")")
  else
    let (payload, input) ← readExact len input
    match bincode.deserialize payload with
    | .error e => .error ("gossip decode: " ++ e)
    | .ok msg => .ok (msg, input)

/-- Whatever follows it, the message is read from what was written, and not from less. -/
def Readable (msg : T) (written : Bytes) : Prop :=
  (∀ tail, readMessage bincode (written ++ tail) = .ok (msg, tail))
    ∧ ∀ front back, written = front ++ back → back ≠ [] →
        ∃ e, readMessage bincode front = .error e

end

/-! ### Framing -/

@[simp]
theorem length_toBeBytes (n : UInt32) : (toBeBytes n).length = 4 := rfl

theorem fromBeBytes_toBeBytes (n : UInt32) : fromBeBytes (toBeBytes n) = n := by
  have hlt := n.toNat_lt
  apply UInt32.toNat.inj
  simp only [fromBeBytes, toBeBytes, List.foldl_cons, List.foldl_nil, UInt8.toNat_ofNat',
    UInt32.toNat_ofNat']
  omega

theorem readExact_append {n : Nat} {front : Bytes} (rest : Bytes) (h : front.length = n) :
    readExact n (front ++ rest) = .ok (front, rest) := by
  subst h
  simp [readExact]

theorem readExact_of_lt {n : Nat} {input : Bytes} (h : input.length < n) :
    readExact n input = .error "early eof" := if_neg (Nat.not_le.mpr h)

variable {T : Type} {bincode : Bincode T} {msg : T} {written : Bytes}

theorem writeMessage_eq_ok : writeMessage bincode msg = .ok written ↔
    ∃ payload, bincode.serialize msg = .ok payload
      ∧ written = toBeBytes (UInt32.ofNat payload.length) ++ payload := by
  unfold writeMessage
  cases bincode.serialize msg with
  | error e => simp
  | ok payload => simp [eq_comm]

theorem readMessage_short {input : Bytes} (h : input.length < 4) :
    ∃ e, readMessage bincode input = .error e := by
  rw [readMessage, readExact_of_lt h]
  exact ⟨_, rfl⟩

theorem readMessage_frame (n : Nat) (rest : Bytes) :
    readMessage bincode (toBeBytes (UInt32.ofNat n) ++ rest)
      = if n % 2 ^ 32 > maxMessageBytes then
          .error ("gossip message too large: " ++ toString (n % 2 ^ 32) ++ " bytes (max "
            ++ toString maxMessageBytes ++ ")")
        else (readExact (n % 2 ^ 32) rest).bind fun (payload, left) =>
          match bincode.deserialize payload with
          | .error e => .error ("gossip decode: " ++ e)
          | .ok msg => .ok (msg, left) := by
  rw [readMessage, readExact_append rest (length_toBeBytes _)]
  simp only [fromBeBytes_toBeBytes, UInt32.toNat_ofNat', bind, Except.bind]

end StateSync
