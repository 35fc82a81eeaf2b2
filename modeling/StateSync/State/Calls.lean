import StateSync.Lib.Linearizable
import StateSync.State.Live

/-!
# The store with its readers

The tasks that call `set` and `merge_delta`, and those that read: each reading function takes the
read lock once, computes its answer and releases the lock. A caller sees a call, some time later its
return, and in between nothing.
-/

namespace StateSync

inductive Query
  | get (key : String)
  | snapshot
  | deltaSince (since : Nat)
  | maxTimestamp
  | len
  | isEmpty
deriving DecidableEq, Repr

inductive Operation
  | update (op : StoreOp)
  | query (query : Query)
deriving DecidableEq, Repr

/-- What a call returns. -/
inductive Answer
  | winner (value : LwwValue)
  | updated (keys : List String)
  | entry (value : Option LwwValue)
  | delta (delta : StateDelta)
  | number (n : Nat)
  | flag (b : Bool)
deriving DecidableEq, Repr

namespace StateStore

def isEmpty (store : StateStore) : Bool := store.state.entries.isEmpty

def ask (store : StateStore) : Query → Answer
  | .get key => .entry (store.get key)
  | .snapshot => .delta store.snapshot
  | .deltaSince since => .delta (store.deltaSince since)
  | .maxTimestamp => .number store.maxTimestamp
  | .len => .number store.len
  | .isEmpty => .flag store.isEmpty

/-- A call that nobody interrupts: the store after it and what it returns. -/
def apply (store : StateStore) : Operation → StateStore × Answer
  | .update (.set now key value) =>
      ((store.set now key value).1, .winner (store.set now key value).2.1)
  | .update (.mergeDelta delta) =>
      ((store.mergeDelta delta).1, .updated (store.mergeDelta delta).2.1)
  | .query query => (store, store.ask query)

end StateStore

inductive ReadPc
  | called
  | read (answer : Answer)
  | returned (answer : Answer)
deriving DecidableEq, Repr

structure Reading where
  query : Query
  pc : ReadPc
deriving DecidableEq, Repr

structure SharedStore where
  live : LiveStore
  readings : List Reading

inductive SharedAction
  | store (a : StoreAction)
  | callQuery (query : Query)
  | read (i : Nat)
  | returnAnswer (i : Nat)
deriving DecidableEq, Repr

namespace SharedStore

def new (nodeId : String) : SharedStore := { live := LiveStore.new nodeId, readings := [] }

def step (shared : SharedStore) : SharedAction → Option SharedStore
  | .store a => (shared.live.step a).map fun live => { shared with live := live }
  | .callQuery query =>
      some { shared with readings := shared.readings ++ [{ query := query, pc := .called }] }
  | .read i => do
      let reading ← shared.readings[i]?
      match reading.pc with
      | .called => some { shared with
          readings := shared.readings.set i
            { reading with pc := .read (shared.live.ask reading.query) } }
      | _ => none
  | .returnAnswer i => do
      let reading ← shared.readings[i]?
      match reading.pc with
      | .read answer => some { shared with
          readings := shared.readings.set i { reading with pc := .returned answer } }
      | _ => none

end SharedStore

/-! ### As the callers see it -/

open Linearizable

def Task.call : Task → Call Operation Answer
  | .set key incoming pc =>
      { op := .update (.set incoming.timestamp key incoming.value)
        phase := match pc with
          | .drawn => .pending
          | .stored winner => .committed (.winner winner)
          | .returned winner => .returned (.winner winner) }
  | .merge delta pc =>
      { op := .update (.mergeDelta delta)
        phase := match pc with
          | .called => .pending
          | .announcing updated _ => .committed (.updated updated)
          | .reread updated _ _ _ => .committed (.updated updated)
          | .returned updated => .returned (.updated updated) }

def Reading.call (reading : Reading) : Call Operation Answer :=
  { op := .query reading.query
    phase := match reading.pc with
      | .called => .pending
      | .read answer => .committed answer
      | .returned answer => .returned answer }

/-- The calls made so far: `inl` those of `set` and `merge_delta`, `inr` those of the readers. -/
def SharedStore.calls (shared : SharedStore) : ℕ ⊕ ℕ → Option (Call Operation Answer)
  | .inl i => shared.live.tasks[i]?.map Task.call
  | .inr i => shared.readings[i]?.map Reading.call

end StateSync
