import Mathlib.Init

/-!
# A bounded broadcast channel

Every value sent goes to every receiver, and only the last `capacity` values are retained. A
receiver that falls behind learns how many values it missed and continues at the oldest one
retained.
-/

namespace Broadcast

/-- All values ever sent, in order. The first ones are overwritten once there are more than
`capacity`. -/
structure Channel (α : Type*) where
  sent : List α
  capacity : Nat

structure Receiver where
  next : Nat
deriving DecidableEq, Repr

inductive Received (α : Type*)
  | value (a : α)
  | lagged (missed : Nat)
deriving DecidableEq, Repr

namespace Channel

variable {α : Type*}

/-- The buffer is rounded up to a power of two. A `capacity` of 0 is no capacity; it counts as 1
here. -/
def new (capacity : Nat) : Channel α := { sent := [], capacity := capacity.nextPowerOfTwo }

def send (channel : Channel α) (values : List α) : Channel α :=
  { channel with sent := channel.sent ++ values }

def subscribe (channel : Channel α) : Receiver := { next := channel.sent.length }

def oldest (channel : Channel α) : Nat := channel.sent.length - channel.capacity

/-- What `recv` returns next, nothing while it has to wait. -/
def recv (channel : Channel α) (receiver : Receiver) : Option (Received α × Receiver) :=
  if receiver.next < channel.oldest then
    some (.lagged (channel.oldest - receiver.next), { next := channel.oldest })
  else
    channel.sent[receiver.next]?.map fun a => (.value a, { next := receiver.next + 1 })

end Channel

end Broadcast
