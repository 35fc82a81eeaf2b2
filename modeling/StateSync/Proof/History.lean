import StateSync.State.Store

/-!
# A store is what its history selects

`set` and `merge_delta` update the map in two ways: the one through an entry that is inserted if the
key has none and then merged with the incoming value, the other by comparing first and inserting
only what changes. Both offer entries to their keys, in order, and nothing else. What a store holds
therefore depends on nothing but the entries it was ever offered: for each key, the earliest of
those with the greatest stamp.
-/

namespace StateSync

open Register

/-- The entries a call offers to the store of the given node. -/
def StoreOp.offered (nodeId : String) : StoreOp → StateDelta
  | .set now key value => [(key, LwwValue.new value nodeId now)]
  | .mergeDelta delta => delta

/-- The entries a list of calls offers, in the order in which they are offered. -/
def history (nodeId : String) (ops : List StoreOp) : StateDelta :=
  ops.flatMap (StoreOp.offered nodeId)

theorem valuesFor_append (delta delta' : StateDelta) (key : String) :
    valuesFor (delta ++ delta') key = valuesFor delta key ++ valuesFor delta' key := by
  simp [valuesFor]

namespace StateStore

/-! ### One call, and a list of calls -/

theorem get_mergeDelta (store : StateStore) (delta : StateDelta) (k : String) :
    (store.mergeDelta delta).1.get k
      = offers LwwValue.stamp (store.get k) (valuesFor delta k) :=
  lookup_mergeLocked store.state delta k

theorem some_snd_set (store : StateStore) (now : Nat) (key value : String) :
    some (store.set now key value).2.1 = (store.set now key value).1.get key :=
  some_snd_setLocked store.state key (LwwValue.new value store.nodeId now)

theorem get_set (store : StateStore) (now : Nat) (key value k : String) :
    (store.set now key value).1.get k = offers LwwValue.stamp (store.get k)
      (valuesFor [(key, LwwValue.new value store.nodeId now)] k) := by
  by_cases hk : k = key
  · subst hk
    have hvalues : valuesFor [(k, LwwValue.new value store.nodeId now)] k
        = [LwwValue.new value store.nodeId now] := by simp [valuesFor]
    rw [hvalues, offers_cons, offers_nil]
    exact lookup_setLocked_self store.state k _
  · have hvalues : valuesFor [(key, LwwValue.new value store.nodeId now)] k = [] := by
      simp [valuesFor, Ne.symm hk]
    rw [hvalues, offers_nil]
    exact lookup_setLocked_of_ne hk

/-- What a call does to a key: the entries it offers for it are offered in turn. -/
theorem get_perform (store : StateStore) (op : StoreOp) (k : String) :
    (store.perform op).get k
      = offers LwwValue.stamp (store.get k) (valuesFor (op.offered store.nodeId) k) := by
  cases op with
  | set now key value => exact get_set store now key value k
  | mergeDelta delta => exact get_mergeDelta store delta k

theorem nodeId_perform (store : StateStore) (op : StoreOp) :
    (store.perform op).nodeId = store.nodeId := by
  cases op with
  | set now key value => rfl
  | mergeDelta delta => rfl

theorem nodeId_performAll (store : StateStore) (ops : List StoreOp) :
    (store.performAll ops).nodeId = store.nodeId := by
  induction ops generalizing store with
  | nil => rfl
  | cons op ops ih => exact (ih (store.perform op)).trans (nodeId_perform store op)

theorem get_performAll (store : StateStore) (ops : List StoreOp) (k : String) :
    (store.performAll ops).get k
      = offers LwwValue.stamp (store.get k) (valuesFor (history store.nodeId ops) k) := by
  induction ops generalizing store with
  | nil => rfl
  | cons op ops ih =>
      have hhistory : history store.nodeId (op :: ops)
          = op.offered store.nodeId ++ history store.nodeId ops := List.flatMap_cons
      calc
        ((store.perform op).performAll ops).get k
            = offers LwwValue.stamp ((store.perform op).get k)
                (valuesFor (history store.nodeId ops) k) := by
          rw [ih, nodeId_perform]
        _ = offers LwwValue.stamp (store.get k)
              (valuesFor (history store.nodeId (op :: ops)) k) := by
          rw [get_perform, hhistory, valuesFor_append, offers_append]

theorem behind_performAll (store : StateStore) (ops : List StoreOp) (k : String) :
    Behind LwwValue.stamp (store.get k) ((store.performAll ops).get k) := by
  rw [get_performAll]
  exact behind_offers _ _

/-! ### From an empty store -/

variable (nodeId : String) (ops : List StoreOp)

theorem get_performAll_new (k : String) : ((new nodeId).performAll ops).get k
    = offers LwwValue.stamp none (valuesFor (history nodeId ops) k) :=
  get_performAll (new nodeId) ops k

theorem performAll_concat (store : StateStore) (op : StoreOp) :
    store.performAll (ops ++ [op]) = (store.performAll ops).perform op :=
  List.foldl_append

theorem get_performAll_new_eq_none_iff (k : String) :
    ((new nodeId).performAll ops).get k = none ↔ ∀ v, (k, v) ∉ history nodeId ops := by
  rw [get_performAll_new, offers_eq_none_iff, List.eq_nil_iff_forall_not_mem]
  simp only [mem_valuesFor]

theorem get_performAll_new_eq_some_iff (k : String) (v : LwwValue) :
    ((new nodeId).performAll ops).get k = some v ↔
      FirstGreatest LwwValue.stamp (valuesFor (history nodeId ops) k) v := by
  rw [get_performAll_new, offers_eq_some_iff]

theorem firstGreatest_snd_set (now : Nat) (key value : String) :
    FirstGreatest LwwValue.stamp (valuesFor (history nodeId (ops ++ [.set now key value])) key)
      (((new nodeId).performAll ops).set now key value).2.1 := by
  rw [← get_performAll_new_eq_some_iff, performAll_concat, some_snd_set]
  rfl

theorem maxTimestamp_performAll_new : ((new nodeId).performAll ops).maxTimestamp
    = ((history nodeId ops).map fun entry => entry.2.timestamp).max?.getD 0 := by
  apply eq_of_forall_ge_iff
  intro m
  unfold maxTimestamp
  rw [max?_timestamp_le_iff, max?_timestamp_le_iff]
  constructor
  · -- what was offered is no newer than what the key holds
    intro hheld k v hv
    have hle := stamp_le_offers LwwValue.stamp none (mem_valuesFor.mpr hv)
    rw [← get_performAll_new] at hle
    cases hget : ((new nodeId).performAll ops).get k with
    | none => exact absurd hv ((get_performAll_new_eq_none_iff nodeId ops k).mp hget v)
    | some w =>
        rw [hget, stampOf_some, WithBot.coe_le_coe] at hle
        calc
          v.timestamp ≤ w.timestamp := LwwValue.timestamp_le_of_stamp_le hle
          _ ≤ m := hheld k w (mem_iter.mpr hget)
  · -- and what it holds was offered
    intro hoffered k v hv
    have hselected := (get_performAll_new_eq_some_iff nodeId ops k v).mp (mem_iter.mp hv)
    exact hoffered k v (mem_valuesFor.mp hselected.mem)

theorem exists_get_performAll {store : StateStore} {k : String} {v : LwwValue}
    (hv : store.get k = some v) :
    ∃ w, (store.performAll ops).get k = some w ∧ v.stamp ≤ w.stamp := by
  have hbehind := behind_performAll store ops k
  rw [hv] at hbehind
  cases hget : (store.performAll ops).get k with
  | none =>
      rw [hget] at hbehind
      exact absurd hbehind.eq_none (by simp)
  | some w =>
      rw [hget] at hbehind
      exact ⟨w, rfl, WithBot.coe_le_coe.mp hbehind.stamp_le⟩

/-- **A store is the maximum of its history.** After any calls, a key has an entry when one was
offered for it, and then the earliest of those with the greatest stamp; a `set` returns what the
same rule selects at that point; and the greatest timestamp is the greatest ever offered. From then
on no key vanishes and no stamp decreases. -/
theorem performAll_history :
    (∀ k, ((new nodeId).performAll ops).get k = none ↔ ∀ v, (k, v) ∉ history nodeId ops)
      ∧ (∀ k v, ((new nodeId).performAll ops).get k = some v ↔
          FirstGreatest LwwValue.stamp (valuesFor (history nodeId ops) k) v)
      ∧ (∀ now key value, FirstGreatest LwwValue.stamp
          (valuesFor (history nodeId (ops ++ [.set now key value])) key)
          (((new nodeId).performAll ops).set now key value).2.1)
      ∧ ((new nodeId).performAll ops).maxTimestamp
          = ((history nodeId ops).map fun entry => entry.2.timestamp).max?.getD 0
      ∧ ∀ more k v, ((new nodeId).performAll ops).get k = some v →
          ∃ w, ((new nodeId).performAll (ops ++ more)).get k = some w ∧ v.stamp ≤ w.stamp := by
  refine ⟨get_performAll_new_eq_none_iff nodeId ops, get_performAll_new_eq_some_iff nodeId ops,
    firstGreatest_snd_set nodeId ops, maxTimestamp_performAll_new nodeId ops, ?_⟩
  intro more k v hv
  have happend : (new nodeId).performAll (ops ++ more)
      = ((new nodeId).performAll ops).performAll more := List.foldl_append
  rw [happend]
  exact exists_get_performAll more hv

end StateStore

end StateSync
