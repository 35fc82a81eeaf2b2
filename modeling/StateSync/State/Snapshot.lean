import StateSync.Gossip.Protocol

/-!
# Snapshots as bytes

A delta written down and read back with the library that also encodes the messages.
-/

namespace StateSync

open Wire

def serializeDelta (bincode : Bincode StateDelta) (delta : StateDelta) : Except String Bytes :=
  (bincode.serialize delta).mapError ("snapshot serialize: " ++ ·)

def deserializeDelta (bincode : Bincode StateDelta) (bytes : Bytes) : Except String StateDelta :=
  (bincode.deserialize bytes).mapError ("snapshot deserialize: " ++ ·)

end StateSync
