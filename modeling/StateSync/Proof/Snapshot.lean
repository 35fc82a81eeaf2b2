import StateSync.Proof.Framing
import StateSync.Proof.Merges
import StateSync.State.Snapshot

/-!
# A snapshot stands for a history

A store can be written down and merged into another one. The other one cannot tell this from the
calls that made the first: it ends up with the map it would have if it had been offered every one of
their entries in turn. A snapshot that is older than one already merged changes nothing, and one
that was cut short is refused.
-/

namespace StateSync

open Register Wire

variable {bincode : Bincode StateDelta} {delta : StateDelta} {bytes : Bytes}

theorem serializeDelta_eq_ok :
    serializeDelta bincode delta = .ok bytes ↔ bincode.serialize delta = .ok bytes := by
  unfold serializeDelta
  cases bincode.serialize delta with
  | error e => simp [Except.mapError]
  | ok bytes => simp [Except.mapError]

theorem deserializeDelta_of_serializeDelta (hlawful : bincode.Lawful)
    (h : serializeDelta bincode delta = .ok bytes) :
    deserializeDelta bincode bytes = .ok delta := by
  rw [deserializeDelta, hlawful.roundTrip delta bytes (serializeDelta_eq_ok.mp h)]
  rfl

theorem deserializeDelta_cut (hlawful : bincode.Lawful)
    (h : serializeDelta bincode delta = .ok bytes) {front back : Bytes}
    (hbytes : bytes = front ++ back) (hback : back ≠ []) :
    ∃ e, deserializeDelta bincode front = .error ("snapshot deserialize: " ++ e) := by
  subst hbytes
  obtain ⟨e, he⟩ := hlawful.strictPrefix delta front back (serializeDelta_eq_ok.mp h) hback
  refine ⟨e, ?_⟩
  rw [deserializeDelta, he]
  rfl

namespace StateStore

theorem get_mergeDelta_snapshot (A B : StateStore) (k : String) :
    (B.mergeDelta A.snapshot).1.get k
      = offers LwwValue.stamp (B.get k) (A.get k).toList := by
  cases hA : A.get k with
  | none =>
      apply get_mergeDelta_of_notMem
      intro v hv
      have hget : A.get k = some v := mem_iter.mp hv
      simp [hA] at hget
  | some v => exact get_mergeDelta_of_entries B (fun k v => mem_iter.mp) (mem_iter.mpr hA)

theorem get_mergeDelta_history (B : StateStore) (nodeId : String) (ops : List StoreOp)
    (k : String) :
    (B.mergeDelta ((new nodeId).performAll ops).snapshot).1.get k
      = (B.mergeDelta (history nodeId ops)).1.get k := by
  calc
    (B.mergeDelta ((new nodeId).performAll ops).snapshot).1.get k
      = offers LwwValue.stamp (B.get k)
          (offers LwwValue.stamp none (valuesFor (history nodeId ops) k)).toList := by
        rw [get_mergeDelta_snapshot, get_performAll_new]
    _ = offers LwwValue.stamp (B.get k) (valuesFor (history nodeId ops) k) := offers_selected _ _
    _ = (B.mergeDelta (history nodeId ops)).1.get k := (get_mergeDelta _ _ _).symm

/-- What an older snapshot holds, a store that has merged a newer one dominates. -/
theorem dominates_of_older (A B : StateStore) (ops : List StoreOp) {k : String} {v : LwwValue}
    (hv : (k, v) ∈ A.snapshot) :
    (B.mergeDelta (A.performAll ops).snapshot).1.state.Dominates k v := by
  obtain ⟨w, hw, hle⟩ := exists_get_performAll ops (mem_iter.mp hv)
  calc
    (v.stamp : WithBot (ℕ ×ₗ String)) ≤ w.stamp := WithBot.coe_le_coe.mpr hle
    _ ≤ (B.mergeDelta (A.performAll ops).snapshot).1.state.stampAt k :=
      dominates_mergeDelta B (mem_iter.mpr hw)

/-- **A snapshot stands for a history.** The bytes of a store that went through any calls are read
back, and merged into any store they leave the map and report the keys that the entries of these
calls would, merged one by one. A snapshot taken earlier then returns no key, sends no event and
leaves the store as it is, and bytes that were cut short are an error. -/
theorem snapshot_eq_history (hlawful : bincode.Lawful) {nodeId : String} (ops more : List StoreOp)
    (hbytes : serializeDelta bincode ((new nodeId).performAll (ops ++ more)).snapshot = .ok bytes)
    {older : Bytes}
    (holder : serializeDelta bincode ((new nodeId).performAll ops).snapshot = .ok older) :
    ∃ delta, deserializeDelta bincode bytes = .ok delta
      ∧ (∀ (store : StateStore) (k : String), (store.mergeDelta delta).1.get k
          = (store.mergeDelta (history nodeId (ops ++ more))).1.get k)
      ∧ (∀ (store : StateStore) (k : String), k ∈ (store.mergeDelta delta).2.1
          ↔ k ∈ (store.mergeDelta (history nodeId (ops ++ more))).2.1)
      ∧ (∃ delta', deserializeDelta bincode older = .ok delta' ∧ ∀ store : StateStore,
          (store.mergeDelta delta).1.mergeDelta delta' = ((store.mergeDelta delta).1, [], []))
      ∧ ∀ front back, bytes = front ++ back → back ≠ [] →
          ∃ e, deserializeDelta bincode front = .error ("snapshot deserialize: " ++ e) := by
  refine ⟨_, deserializeDelta_of_serializeDelta hlawful hbytes, ?_, ?_, ?_, ?_⟩
  · exact fun store k => store.get_mergeDelta_history nodeId _ k
  · intro store k
    rw [mem_mergeDelta_iff, mem_mergeDelta_iff, get_mergeDelta_history]
  · refine ⟨_, deserializeDelta_of_serializeDelta hlawful holder, ?_⟩
    intro store
    apply mergeDelta_of_dominates
    rintro ⟨k, v⟩ hv
    have happend : (new nodeId).performAll (ops ++ more)
        = ((new nodeId).performAll ops).performAll more := List.foldl_append
    rw [happend]
    exact dominates_of_older _ store more hv
  · exact fun front back hfront hback => deserializeDelta_cut hlawful hbytes hfront hback

end StateStore

def StateDelta.format : Format StateDelta := Format.seq (Format.text.pair LwwValue.format)

theorem StateStore.snapshot_eq_history_overwritten :
    ∃ bytes delta, serializeDelta (Bincode.ofFormat StateDelta.format)
        ((new "node-a").performAll [.set 1 "k" "x", .set 5 "k" "y"]).snapshot = .ok bytes
      ∧ deserializeDelta (Bincode.ofFormat StateDelta.format) bytes = .ok delta
      ∧ ∀ (store : StateStore) (k : String), (store.mergeDelta delta).1.get k = (store.mergeDelta
          [("k", LwwValue.new "x" "node-a" 1), ("k", LwwValue.new "y" "node-a" 5)]).1.get k := by
  have hwritten (store : StateStore)
      (h : (StateDelta.format.write store.snapshot).isSome = true) :
      ∃ bytes, serializeDelta (Bincode.ofFormat StateDelta.format) store.snapshot = .ok bytes := by
    obtain ⟨bytes, hbytes⟩ := Option.isSome_iff_exists.mp h
    exact ⟨bytes, serializeDelta_eq_ok.mpr (Bincode.serialize_ofFormat.mpr hbytes)⟩
  obtain ⟨older, holder⟩ := hwritten
    ((new "node-a").performAll [.set 1 "k" "x"]) (by decide +kernel)
  obtain ⟨bytes, hbytes⟩ := hwritten
    ((new "node-a").performAll [.set 1 "k" "x", .set 5 "k" "y"]) (by decide +kernel)
  obtain ⟨delta, hdelta, hget, _⟩ := snapshot_eq_history
    (Bincode.lawful_ofFormat StateDelta.format) [.set 1 "k" "x"] [.set 5 "k" "y"] hbytes holder
  exact ⟨bytes, delta, hbytes, hdelta, hget⟩

end StateSync
