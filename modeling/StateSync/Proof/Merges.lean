import StateSync.Proof.History
import StateSync.Proof.StoreInvariant

/-!
# What a merge does and reports

`merge_delta` as its caller sees it: the keys it returns are those whose entry changed, each as
often as an entry of the delta beat everything before it. Two consequences follow from the order of
stamps alone. What a store already dominates may be left out of a delta, so a delta above a
watermark does the work of the whole snapshot; and a delta that was merged once has no effect when
it comes again.
-/

namespace StateSync

open Register

/-- Entry `i` of the delta is one for the key that beats what the map holds for it and every earlier
entry of the delta for it. -/
def Exceeds (state : StateMap) (delta : StateDelta) (key : String) (i : Nat) : Prop :=
  ∃ entry ∈ delta[i]?, entry.1 = key ∧ state.stampAt key < entry.2.stamp
    ∧ ∀ earlier ∈ delta.take i, earlier.1 = key → earlier.2.stamp < entry.2.stamp

instance (state : StateMap) (delta : StateDelta) (key : String) :
    DecidablePred (Exceeds state delta key) := fun i =>
  inferInstanceAs (Decidable (∃ entry ∈ delta[i]?, entry.1 = key
    ∧ state.stampAt key < entry.2.stamp
    ∧ ∀ earlier ∈ delta.take i, earlier.1 = key → earlier.2.stamp < entry.2.stamp))

/-- How many entries of the delta do so. -/
def exceeding (state : StateMap) (delta : StateDelta) (key : String) : Nat :=
  (List.range delta.length).countP (Exceeds state delta key)

/-! ### The locked section, entry by entry -/

variable {state : StateMap} {delta : StateDelta} {key : String}

theorem mergeLocked_concat (state : StateMap) (delta : StateDelta) (entry : String × LwwValue) :
    mergeLocked state (delta ++ [entry]) = mergeEntry (mergeLocked state delta) entry :=
  List.foldl_append

theorem stampAt_mergeLocked_lt_iff {s : WithBot (ℕ ×ₗ String)} :
    (mergeLocked state delta).1.stampAt key < s ↔
      state.stampAt key < s ∧ ∀ v, (key, v) ∈ delta → (v.stamp : WithBot (ℕ ×ₗ String)) < s := by
  unfold StateMap.stampAt
  rw [lookup_mergeLocked, stampOf_offers_lt_iff]
  simp only [mem_valuesFor]

theorem exceeds_concat_of_lt {entry : String × LwwValue} {i : Nat} (hi : i < delta.length) :
    Exceeds state (delta ++ [entry]) key i ↔ Exceeds state delta key i := by
  unfold Exceeds
  rw [List.getElem?_append_left hi, List.take_append_of_le_length hi.le]

theorem exceeds_concat_length {entry : String × LwwValue} :
    Exceeds state (delta ++ [entry]) key delta.length ↔
      entry.1 = key ∧ (mergeLocked state delta).1.stampAt key < entry.2.stamp := by
  unfold Exceeds
  rw [stampAt_mergeLocked_lt_iff]
  constructor
  · rintro ⟨e, he, hkey, hlt, hearlier⟩
    obtain rfl : entry = e := by simpa using he
    refine ⟨hkey, hlt, fun v hv => WithBot.coe_lt_coe.mpr ?_⟩
    exact hearlier (key, v) (by simpa using hv) rfl
  · rintro ⟨hkey, hlt, hearlier⟩
    refine ⟨entry, by simp, hkey, hlt, ?_⟩
    rintro ⟨k, v⟩ hv rfl
    exact WithBot.coe_lt_coe.mp (hearlier v (by simpa using hv))

theorem exceeding_concat (entry : String × LwwValue) :
    exceeding state (delta ++ [entry]) key = exceeding state delta key
      + if entry.1 = key ∧ (mergeLocked state delta).1.stampAt key < entry.2.stamp then 1
        else 0 := by
  unfold exceeding
  rw [List.length_append, List.length_singleton, List.range_succ, List.countP_append]
  congr 1
  · apply List.countP_congr
    intro i hi
    simp [exceeds_concat_of_lt (List.mem_range.mp hi)]
  · simp [List.countP_cons, exceeds_concat_length]

/-- A key is reported once for every entry that beats all before it. -/
theorem count_mergeLocked (state : StateMap) (delta : StateDelta) (key : String) :
    (mergeLocked state delta).2.count key = exceeding state delta key := by
  induction delta using List.reverseRecOn with
  | nil => rfl
  | append_singleton delta entry ih =>
      rw [mergeLocked_concat, mergeEntry_eq, exceeding_concat, ← ih]
      by_cases hkey : entry.1 = key
      · subst hkey
        split
        · rename_i hlt
          simp [hlt]
        · rename_i hlt
          simp [hlt]
      · split
        · simp [List.count_append, hkey]
        · simp [hkey]

theorem sublist_mergeLocked (state : StateMap) (delta : StateDelta) :
    (mergeLocked state delta).2.Sublist (delta.map Prod.fst) := by
  induction delta using List.reverseRecOn with
  | nil => exact List.Sublist.refl _
  | append_singleton delta entry ih =>
      rw [mergeLocked_concat, mergeEntry_eq, List.map_append]
      split
      · exact ih.append (List.Sublist.refl _)
      · exact ih.trans (List.sublist_append_left _ _)

theorem stampAt_lt_of_mem_mergeLocked (hkey : key ∈ (mergeLocked state delta).2) :
    state.stampAt key < (mergeLocked state delta).1.stampAt key := by
  rw [← List.count_pos_iff, count_mergeLocked] at hkey
  obtain ⟨i, -, hexceeds⟩ := List.countP_pos_iff.mp hkey
  obtain ⟨⟨k, v⟩, hentry, rfl, hlt, -⟩ := of_decide_eq_true hexceeds
  calc
    state.stampAt k < v.stamp := hlt
    _ ≤ (mergeLocked state delta).1.stampAt k := by
      unfold StateMap.stampAt
      rw [lookup_mergeLocked]
      exact stamp_le_offers _ _ (mem_valuesFor.mpr (List.mem_of_getElem? hentry))

theorem mem_mergeLocked_iff : key ∈ (mergeLocked state delta).2 ↔
    (mergeLocked state delta).1.lookup key ≠ state.lookup key := by
  constructor
  · intro hkey heq
    have hlt := stampAt_lt_of_mem_mergeLocked hkey
    unfold StateMap.stampAt at hlt
    rw [heq] at hlt
    exact lt_irrefl _ hlt
  · intro hne
    by_contra hkey
    exact hne (lookup_mergeLocked_of_notMem hkey)

theorem exists_lookup_of_mem (hkey : key ∈ (mergeLocked state delta).2) :
    ∃ v, (mergeLocked state delta).1.lookup key = some v := by
  have hlt := stampAt_lt_of_mem_mergeLocked hkey
  unfold StateMap.stampAt at hlt
  cases hlookup : (mergeLocked state delta).1.lookup key with
  | none => simp [hlookup] at hlt
  | some v => exact ⟨v, rfl⟩

/-! ### The call as a whole -/

/-- The events that announce keys of a map, each with the entry the map holds. -/
def announce (state : StateMap) (keys : List String) : List StateEvent :=
  keys.filterMap fun key => (state.lookup key).map fun v => { key := key, value := v }

theorem map_key_announce {keys : List String} (h : ∀ key ∈ keys, ∃ v, state.lookup key = some v) :
    (announce state keys).map StateEvent.key = keys := by
  induction keys with
  | nil => rfl
  | cons key keys ih =>
      obtain ⟨v, hv⟩ := h key List.mem_cons_self
      have hrest := ih fun k hk => h k (List.mem_cons_of_mem key hk)
      simpa [announce, hv] using hrest

theorem lookup_of_mem_announce {keys : List String} {e : StateEvent}
    (he : e ∈ announce state keys) : state.lookup e.key = some e.value := by
  obtain ⟨key, -, hkey⟩ := List.mem_filterMap.mp he
  obtain ⟨v, hv, rfl⟩ := Option.map_eq_some_iff.mp hkey
  exact hv

namespace StateStore

theorem mem_mergeDelta_iff (store : StateStore) (delta : StateDelta) (k : String) :
    k ∈ (store.mergeDelta delta).2.1 ↔ (store.mergeDelta delta).1.get k ≠ store.get k :=
  mem_mergeLocked_iff

theorem dominates_mergeDelta (store : StateStore) {delta : StateDelta} {k : String} {v : LwwValue}
    (hv : (k, v) ∈ delta) : (store.mergeDelta delta).1.state.Dominates k v := by
  unfold StateMap.Dominates
  rw [stampAt_eq, get_mergeDelta]
  exact stamp_le_offers _ _ (mem_valuesFor.mpr hv)

end StateStore

namespace LiveStore

/-- The loop over the updated keys, when nobody interrupts it: two steps for each key. -/
theorem run_announce (live : LiveStore) (delta : StateDelta) (updated keys : List String)
    (h : ∀ key ∈ keys, ∃ v, live.state.lookup key = some v) (events : List StateEvent) :
    Machine.run step
        { live with tasks := live.tasks ++ [.merge delta (.announcing updated keys)]
                    events := events }
        (List.replicate (2 * keys.length + 1) (.advance live.tasks.length))
      = some { live with tasks := live.tasks ++ [.merge delta (.returned updated)]
                         events := events ++ announce live.state keys } := by
  induction keys generalizing events with
  | nil => simp [Machine.run, step, Task.advance, announce]
  | cons key keys ih =>
      obtain ⟨v, hv⟩ := h key List.mem_cons_self
      have hrest := ih (fun k hk => h k (List.mem_cons_of_mem key hk))
        (events ++ [{ key := key, value := v }])
      have hlength : 2 * (key :: keys).length + 1 = 2 * keys.length + 1 + 2 := by
        rw [List.length_cons]
        omega
      rw [hlength, List.replicate_succ, List.replicate_succ]
      simpa [Machine.run, step, Task.advance, announce, hv] using hrest

/-- `StateStore.mergeDelta` is a call of `merge_delta` that nobody interrupts. -/
theorem run_mergeDelta_alone (live : LiveStore) (delta : StateDelta) :
    Machine.run step live (.callMerge delta :: .advance live.tasks.length ::
        List.replicate (2 * (live.mergeDelta delta).2.1.length + 1) (.advance live.tasks.length))
      = some { live with
          state := (live.mergeDelta delta).1.state
          tasks := live.tasks ++ [.merge delta (.returned (live.mergeDelta delta).2.1)]
          events := live.events ++ (live.mergeDelta delta).2.2 } := by
  have hloop := run_announce { live with state := (mergeLocked live.state delta).1 } delta
    (mergeLocked live.state delta).2 (mergeLocked live.state delta).2
    (fun key hkey => exists_lookup_of_mem hkey) live.events
  simpa [Machine.run, step, Task.advance, StateStore.mergeDelta, announce] using hloop

/-- **A merge reports exactly what changed.** The returned keys are those whose entry differs, each
with a strictly greater stamp than before, and each as often as an entry of the delta beat all
before it; and when nobody else writes, the call sends one event for each of them, in order, with
the key's final entry. -/
theorem mergeDelta_reports (live : LiveStore) (delta : StateDelta) :
    (∀ k, k ∈ (live.mergeDelta delta).2.1 ↔ (live.mergeDelta delta).1.get k ≠ live.get k)
      ∧ (∀ k ∈ (live.mergeDelta delta).2.1,
          live.state.stampAt k < (live.mergeDelta delta).1.state.stampAt k)
      ∧ (∀ k, k ∉ (live.mergeDelta delta).2.1 → (live.mergeDelta delta).1.get k = live.get k)
      ∧ (∀ k, (live.mergeDelta delta).2.1.count k = exceeding live.state delta k)
      ∧ ((delta.map Prod.fst).Nodup → (live.mergeDelta delta).2.1.Nodup)
      ∧ ∃ n live' sent, Machine.run step live
            (.callMerge delta :: List.replicate n (.advance live.tasks.length)) = some live'
          ∧ live'.tasks = live.tasks ++ [.merge delta (.returned (live.mergeDelta delta).2.1)]
          ∧ (∀ k, live'.get k = (live.mergeDelta delta).1.get k)
          ∧ live'.events = live.events ++ sent
          ∧ sent.map StateEvent.key = (live.mergeDelta delta).2.1
          ∧ ∀ e ∈ sent, (live.mergeDelta delta).1.get e.key = some e.value := by
  refine ⟨live.mem_mergeDelta_iff delta, fun k hk => stampAt_lt_of_mem_mergeLocked hk,
    fun k hk => lookup_mergeLocked_of_notMem hk, count_mergeLocked live.state delta,
    fun hnodup => hnodup.sublist (sublist_mergeLocked live.state delta), ?_⟩
  have hrun := run_mergeDelta_alone live delta
  rw [← List.replicate_succ] at hrun
  refine ⟨_, _, (live.mergeDelta delta).2.2, hrun, rfl, fun k => rfl, rfl, ?_, ?_⟩
  · exact map_key_announce fun key hkey => exists_lookup_of_mem hkey
  · intro e he
    exact lookup_of_mem_announce he

end LiveStore

namespace StateStore

/-! ### Deltas and snapshots -/

/-- What merging entries of another store does to a key: the entry it has there is offered, if it is
among them. -/
theorem get_mergeDelta_of_entries {A : StateStore} (B : StateStore) {delta : StateDelta}
    (hdelta : ∀ k v, (k, v) ∈ delta → A.get k = some v) {k : String} {v : LwwValue}
    (hv : (k, v) ∈ delta) :
    (B.mergeDelta delta).1.get k = offer LwwValue.stamp (B.get k) v := by
  rw [get_mergeDelta]
  apply offers_of_forall_eq (mem_valuesFor.mpr hv)
  intro w hw
  have hsame : some v = some w := by
    rw [← hdelta k v hv, ← hdelta k w (mem_valuesFor.mp hw)]
  exact (Option.some.inj hsame).symm

theorem get_mergeDelta_of_notMem (B : StateStore) {delta : StateDelta} {k : String}
    (hk : ∀ v, (k, v) ∉ delta) : (B.mergeDelta delta).1.get k = B.get k := by
  rw [get_mergeDelta]
  apply offers_of_forall_stamp_le
  intro v hv
  exact absurd (mem_valuesFor.mp hv) (hk v)

/-- **A delta does the work of the snapshot.** When `B` dominates every entry of `A` up to the
watermark, merging the entries above it and merging all of them leave `B` with the same map, report
the same keys, and make it dominate `A`. -/
theorem delta_refines_snapshot {A B : StateStore} {w : Nat}
    (hserved : ∀ k v, A.get k = some v → v.timestamp ≤ w → B.state.Dominates k v)
    {delta snapshot : StateDelta} (hdelta : delta.Perm (A.deltaSince w))
    (hsnapshot : snapshot.Perm A.snapshot) :
    (∀ k, (B.mergeDelta delta).1.get k = (B.mergeDelta snapshot).1.get k)
      ∧ (∀ k, k ∈ (B.mergeDelta delta).2.1 ↔ k ∈ (B.mergeDelta snapshot).2.1)
      ∧ ∀ k v, A.get k = some v → (B.mergeDelta delta).1.state.Dominates k v := by
  have hmemDelta {k : String} {v : LwwValue} :
      (k, v) ∈ delta ↔ A.get k = some v ∧ w < v.timestamp := by
    rw [hdelta.mem_iff, mem_deltaSince]
  have hmemSnapshot {k : String} {v : LwwValue} : (k, v) ∈ snapshot ↔ A.get k = some v := by
    rw [hsnapshot.mem_iff]
    exact mem_iter
  have hget (k : String) : (B.mergeDelta delta).1.get k = (B.mergeDelta snapshot).1.get k := by
    cases hA : A.get k with
    | none =>
        rw [get_mergeDelta_of_notMem, get_mergeDelta_of_notMem]
        · simp [hmemSnapshot, hA]
        · simp [hmemDelta, hA]
    | some v =>
        rw [get_mergeDelta_of_entries B (fun k v => hmemSnapshot.mp) (hmemSnapshot.mpr hA)]
        by_cases hw : w < v.timestamp
        · exact get_mergeDelta_of_entries B (fun k v h => (hmemDelta.mp h).1)
            (hmemDelta.mpr ⟨hA, hw⟩)
        · -- the delta has no entry for the key, and the snapshot's changes nothing
          have hsame : offer LwwValue.stamp (B.get k) v = B.get k :=
            offer_of_stamp_le (hserved k v hA (not_lt.mp hw))
          rw [hsame]
          apply get_mergeDelta_of_notMem
          intro u hu
          obtain ⟨hu, hlt⟩ := hmemDelta.mp hu
          rw [hA, Option.some.injEq] at hu
          exact hw (hu ▸ hlt)
  refine ⟨hget, ?_, ?_⟩
  · intro k
    rw [mem_mergeDelta_iff, mem_mergeDelta_iff, hget k]
  · intro k v hv
    unfold StateMap.Dominates
    rw [stampAt_eq, hget k, ← stampAt_eq]
    exact dominates_mergeDelta B (hmemSnapshot.mpr hv)

theorem delta_refines_snapshot_partly_synced :
    let A := (new "node-a").performAll [.set 1 "x" "1", .set 5 "y" "2"]
    let B := (new "node-b").performAll [.mergeDelta [("x", LwwValue.new "1" "node-a" 1)]]
    ∀ k, (B.mergeDelta (A.deltaSince 2)).1.get k = (B.mergeDelta A.snapshot).1.get k := by
  intro A B
  have hserved : ∀ entry ∈ A.snapshot, entry.2.timestamp ≤ 2 →
      entry.2.stamp ≤ B.state.stampAt entry.1 := by decide +kernel
  have h := delta_refines_snapshot (A := A) (B := B) (w := 2)
    (fun k v hv hle => hserved (k, v) (mem_iter.mpr hv) hle) (.refl _) (.refl _)
  exact h.1

/-! ### Redelivery -/

theorem mergeLocked_of_dominates {state : StateMap} {delta : StateDelta}
    (h : ∀ entry ∈ delta, state.Dominates entry.1 entry.2) :
    mergeLocked state delta = (state, []) := by
  induction delta with
  | nil => rfl
  | cons entry delta ih =>
      have hentry : mergeEntry (state, []) entry = (state, []) := by
        rw [mergeEntry_eq, if_neg (not_lt.mpr (h entry List.mem_cons_self))]
      have hrest := ih fun e he => h e (List.mem_cons_of_mem entry he)
      unfold mergeLocked at hrest ⊢
      rw [List.foldl_cons, hentry, hrest]

theorem mergeDelta_of_dominates {store : StateStore} {delta : StateDelta}
    (h : ∀ entry ∈ delta, store.state.Dominates entry.1 entry.2) :
    store.mergeDelta delta = (store, [], []) := by
  simp [mergeDelta, mergeLocked_of_dominates h]

/-- **Redelivery is absorbed.** After a delta was merged, whatever was set and merged since, merging
entries of it again, in any order and number, returns no key, sends no event and leaves the store as
it is. -/
theorem redelivery_absorbed (store : StateStore) (delta : StateDelta) (ops : List StoreOp)
    {again : StateDelta} (hagain : again ⊆ delta) :
    (((store.mergeDelta delta).1.performAll ops).mergeDelta again)
      = ((store.mergeDelta delta).1.performAll ops, [], []) := by
  apply mergeDelta_of_dominates
  intro entry hentry
  exact (dominates_mergeDelta store (hagain hentry)).mono (behind_performAll _ ops entry.1)

theorem redelivery_absorbed_reversed :
    let first := LwwValue.new "1" "node-a" 5
    let other := LwwValue.new "2" "node-a" 5
    let store := ((new "node-b").mergeDelta [("x", first), ("x", other)]).1.performAll
      [.set 3 "x" "3", .mergeDelta [("y", other)]]
    store.mergeDelta [("x", other), ("x", first)] = (store, [], []) := by
  intro first other store
  exact redelivery_absorbed (new "node-b") [("x", first), ("x", other)]
    [.set 3 "x" "3", .mergeDelta [("y", other)]] (by decide)

end StateStore

end StateSync
