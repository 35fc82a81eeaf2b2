import StateSync.State.Crdt
import Mathlib.Data.List.AList

/-!
# The state store

The map behind the lock and the operations on it, each as the code performs it while it holds the
lock, and `set` and `merge_delta` as a caller sees them when nobody else is writing. The operations
as several tasks interleave them are in `State.Live`, over the same critical sections.

A hash map is an association list with distinct keys; the order of its entries is the order an
iteration yields them in, which nothing below depends on.
-/

namespace StateSync

open Register

structure StateEvent where
  key : String
  value : LwwValue
deriving DecidableEq, Repr

abbrev StateDelta := List (String × LwwValue)

abbrev StateMap := AList fun _ : String => LwwValue

def StateMap.stampAt (state : StateMap) (key : String) : WithBot (ℕ ×ₗ String) :=
  stampOf LwwValue.stamp (state.lookup key)

/-- The map holds an entry for the key that is at least as new as `v`. -/
def StateMap.Dominates (state : StateMap) (key : String) (v : LwwValue) : Prop :=
  (v.stamp : WithBot (ℕ ×ₗ String)) ≤ state.stampAt key

instance (state : StateMap) (key : String) (v : LwwValue) : Decidable (state.Dominates key v) :=
  inferInstanceAs (Decidable ((v.stamp : WithBot (ℕ ×ₗ String)) ≤ state.stampAt key))

/-- The entries of a map, in the order an iteration yields them. -/
def StateMap.iter (state : StateMap) : StateDelta :=
  state.entries.map fun entry => (entry.1, entry.2)

/-! ### Critical sections -/

/-- What `set` does under the write lock: `or_insert_with`, then a merge of the entry with the
incoming value. Gives the new map and the winner. -/
def setLocked (state : StateMap) (key : String) (incoming : LwwValue) : StateMap × LwwValue :=
  let entry := (state.lookup key).getD incoming
  let winner := LwwValue.merge entry incoming
  (state.insert key winner, winner)

/-- One iteration of the loop in `merge_delta`, over the map and the keys updated so far. -/
def mergeEntry (acc : StateMap × List String) (entry : String × LwwValue) :
    StateMap × List String :=
  let winner := match acc.1.lookup entry.1 with
    | none => entry.2
    | some existing => LwwValue.merge existing entry.2
  if acc.1.lookup entry.1 ≠ some winner then
    (acc.1.insert entry.1 winner, acc.2 ++ [entry.1])
  else
    acc

/-- What `merge_delta` does under the write lock: the new map and the updated keys. -/
def mergeLocked (state : StateMap) (delta : StateDelta) : StateMap × List String :=
  delta.foldl mergeEntry (state, [])

/-! ### The store -/

structure StateStore where
  nodeId : String
  state : StateMap

namespace StateStore

def new (nodeId : String) : StateStore := { nodeId := nodeId, state := ∅ }

def get (store : StateStore) (key : String) : Option LwwValue := store.state.lookup key

def snapshot (store : StateStore) : StateDelta := store.state.iter

def deltaSince (store : StateStore) (since : Nat) : StateDelta :=
  store.state.iter.filter fun entry => entry.2.timestamp > since

def maxTimestamp (store : StateStore) : Nat :=
  (store.state.iter.map fun entry => entry.2.timestamp).max?.getD 0

def len (store : StateStore) : Nat := store.state.entries.length

/-- `set` with no concurrent writer: the store, the winner it returns and the event it sends. -/
def set (store : StateStore) (now : Nat) (key value : String) :
    StateStore × LwwValue × StateEvent :=
  let incoming := LwwValue.new value store.nodeId now
  let (state, winner) := setLocked store.state key incoming
  ({ store with state := state }, winner, { key := key, value := winner })

/-- `merge_delta` with no concurrent writer: the store, the updated keys it returns and the events
it sends, each read back from the merged map. -/
def mergeDelta (store : StateStore) (delta : StateDelta) :
    StateStore × List String × List StateEvent :=
  let (state, updated) := mergeLocked store.state delta
  ({ store with state := state }, updated,
    updated.filterMap fun key => (state.lookup key).map fun v => { key := key, value := v })

end StateStore

/-- A call by the only writer of a store. -/
inductive StoreOp
  | set (now : Nat) (key value : String)
  | mergeDelta (delta : StateDelta)
deriving DecidableEq, Repr

namespace StateStore

def perform (store : StateStore) : StoreOp → StateStore
  | .set now key value => (store.set now key value).1
  | .mergeDelta delta => (store.mergeDelta delta).1

def performAll (store : StateStore) (ops : List StoreOp) : StateStore := ops.foldl perform store

end StateStore

/-! ### What the critical sections do to one key -/

theorem lookup_setLocked_self (state : StateMap) (key : String) (incoming : LwwValue) :
    (setLocked state key incoming).1.lookup key
      = offer LwwValue.stamp (state.lookup key) incoming := by
  cases hlookup : state.lookup key with
  | none => simp [setLocked, hlookup, LwwValue.merge_self, offer]
  | some existing => simp [setLocked, hlookup, LwwValue.merge_eq_keepMax, offer]

theorem lookup_setLocked_of_ne {state : StateMap} {key k : String} {incoming : LwwValue}
    (hne : k ≠ key) : (setLocked state key incoming).1.lookup k = state.lookup k := by
  simp [setLocked, AList.lookup_insert_ne hne]

theorem some_snd_setLocked (state : StateMap) (key : String) (incoming : LwwValue) :
    some (setLocked state key incoming).2 = (setLocked state key incoming).1.lookup key := by
  simp [setLocked]

/-- The winner an iteration of the merge loop computes is the register after one more offer. -/
theorem mergeEntry_eq (acc : StateMap × List String) (entry : String × LwwValue) :
    mergeEntry acc entry =
      if acc.1.stampAt entry.1 < entry.2.stamp then
        (acc.1.insert entry.1 entry.2, acc.2 ++ [entry.1])
      else acc := by
  unfold mergeEntry StateMap.stampAt
  cases hlookup : acc.1.lookup entry.1 with
  | none => simp [WithBot.bot_lt_coe]
  | some existing =>
      simp only [LwwValue.merge_eq_keepMax, keepMax, stampOf_some, WithBot.coe_lt_coe]
      by_cases hle : entry.2.stamp ≤ existing.stamp
      · simp [hle]
      · have hne : existing ≠ entry.2 := by
          intro heq
          exact hle (heq ▸ le_rfl)
        simp [hle, hne, not_le.mp hle]

theorem lookup_mergeEntry (acc : StateMap × List String) (entry : String × LwwValue) (k : String) :
    (mergeEntry acc entry).1.lookup k
      = if k = entry.1 then offer LwwValue.stamp (acc.1.lookup k) entry.2
        else acc.1.lookup k := by
  rw [mergeEntry_eq]
  by_cases hk : k = entry.1
  · subst hk
    rcases offer_cases LwwValue.stamp (acc.1.lookup entry.1) entry.2 with ⟨heq, hle⟩ | ⟨heq, hlt⟩
    · simp [StateMap.stampAt, not_lt.mpr hle, heq]
    · simp [StateMap.stampAt, hlt, heq]
  · rw [if_neg hk]
    split
    · exact AList.lookup_insert_ne hk
    · rfl

def valuesFor (delta : StateDelta) (key : String) : List LwwValue :=
  (delta.filter fun entry => entry.1 = key).map Prod.snd

theorem mem_valuesFor {delta : StateDelta} {key : String} {v : LwwValue} :
    v ∈ valuesFor delta key ↔ (key, v) ∈ delta := by
  simp [valuesFor]

theorem lookup_foldl_mergeEntry (delta : StateDelta) (acc : StateMap × List String) (k : String) :
    (delta.foldl mergeEntry acc).1.lookup k
      = offers LwwValue.stamp (acc.1.lookup k) (valuesFor delta k) := by
  induction delta generalizing acc with
  | nil => rfl
  | cons entry rest ih =>
      rw [List.foldl_cons, ih, lookup_mergeEntry]
      by_cases hk : entry.1 = k
      · simp [valuesFor, hk]
      · simp [valuesFor, hk, Ne.symm hk]

/-- **What a merge does to a key.** The key ends up with the values the delta holds for it offered
in turn. -/
theorem lookup_mergeLocked (state : StateMap) (delta : StateDelta) (k : String) :
    (mergeLocked state delta).1.lookup k
      = offers LwwValue.stamp (state.lookup k) (valuesFor delta k) :=
  lookup_foldl_mergeEntry delta (state, []) k

theorem subset_snd_foldl_mergeEntry (delta : StateDelta) (acc : StateMap × List String) :
    acc.2 ⊆ (delta.foldl mergeEntry acc).2 := by
  induction delta generalizing acc with
  | nil => exact List.Subset.refl _
  | cons entry rest ih =>
      refine List.Subset.trans ?_ (ih (mergeEntry acc entry))
      rw [mergeEntry_eq]
      split
      · exact List.subset_append_left _ _
      · exact List.Subset.refl _

theorem lookup_foldl_mergeEntry_of_notMem {delta : StateDelta} {acc : StateMap × List String}
    {k : String} (hk : k ∉ (delta.foldl mergeEntry acc).2) :
    (delta.foldl mergeEntry acc).1.lookup k = acc.1.lookup k := by
  induction delta generalizing acc with
  | nil => rfl
  | cons entry rest ih =>
      rw [List.foldl_cons] at hk ⊢
      rw [ih hk, mergeEntry_eq]
      split
      · -- the entry was stored, so its key is reported and is not `k`
        rename_i hlt
        have hne : k ≠ entry.1 := by
          intro heq
          refine hk (subset_snd_foldl_mergeEntry rest _ ?_)
          rw [mergeEntry_eq, if_pos hlt, heq]
          exact List.mem_append_right _ (List.mem_singleton_self _)
        exact AList.lookup_insert_ne hne
      · rfl

theorem lookup_mergeLocked_of_notMem {state : StateMap} {delta : StateDelta} {k : String}
    (hk : k ∉ (mergeLocked state delta).2) :
    (mergeLocked state delta).1.lookup k = state.lookup k :=
  lookup_foldl_mergeEntry_of_notMem hk

/-! ### Reading the store -/

theorem StateStore.stampAt_eq (store : StateStore) (key : String) :
    store.state.stampAt key = stampOf LwwValue.stamp (store.get key) := rfl

theorem mem_iter {state : StateMap} {key : String} {v : LwwValue} :
    (key, v) ∈ state.iter ↔ state.lookup key = some v := by
  rw [← Option.mem_def, AList.mem_lookup_iff]
  constructor
  · intro hmem
    obtain ⟨⟨k, w⟩, hentry, heq⟩ := List.mem_map.mp hmem
    obtain ⟨rfl, rfl⟩ := Prod.mk.inj heq
    exact hentry
  · intro hentry
    exact List.mem_map.mpr ⟨⟨key, v⟩, hentry, rfl⟩

/-- The greatest timestamp of a delta, 0 when it is empty, as the code computes it. -/
theorem max?_timestamp_le_iff {delta : StateDelta} {m : Nat} :
    (delta.map fun entry => entry.2.timestamp).max?.getD 0 ≤ m ↔
      ∀ k v, (k, v) ∈ delta → v.timestamp ≤ m := by
  constructor
  · intro hmax k v hv
    refine le_trans (List.le_max?_getD_of_mem ?_) hmax
    exact List.mem_map.mpr ⟨(k, v), hv, rfl⟩
  · intro hle
    cases hmax : (delta.map fun entry => entry.2.timestamp).max? with
    | none => exact Nat.zero_le m
    | some ts =>
        obtain ⟨⟨k, v⟩, hentry, rfl⟩ := List.mem_map.mp (List.max?_mem hmax)
        exact hle k v hentry

theorem mem_deltaSince {store : StateStore} {since : Nat} {key : String} {v : LwwValue} :
    (key, v) ∈ store.deltaSince since ↔ store.get key = some v ∧ since < v.timestamp := by
  simp [StateStore.deltaSince, mem_iter, StateStore.get]

end StateSync
