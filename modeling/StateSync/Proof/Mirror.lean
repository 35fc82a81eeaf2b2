import StateSync.Proof.StoreInvariant

/-!
# A mirror fed by the event stream

A client that subscribes, then takes a snapshot, and folds `merge` over the snapshot and the events
it receives ends up with the store's map. Events can arrive late, twice, or for a value that was
replaced in the meantime. What carries the argument is a debt: whenever the mirror lacks the entry
the store holds for a key, some task still owes it, because it holds that very entry or has that key
left to read back.
-/

namespace StateSync

open Register

def mirrorEvent (mirror : StateMap) (e : StateEvent) : StateMap :=
  mirror.insert e.key (match mirror.lookup e.key with
    | none => e.value
    | some existing => LwwValue.merge existing e.value)

/-- The mirror of a client that took `snapshot` and then received `events`. -/
def mirrorOf (snapshot : StateDelta) (events : List StateEvent) : StateMap :=
  (snapshot.map (fun entry => StateEvent.mk entry.1 entry.2) ++ events).foldl mirrorEvent ∅

theorem lookup_mirrorEvent (mirror : StateMap) (e : StateEvent) (k : String) :
    (mirrorEvent mirror e).lookup k
      = if e.key = k then offer LwwValue.stamp (mirror.lookup k) e.value else mirror.lookup k := by
  by_cases hk : e.key = k
  · subst hk
    cases hlookup : mirror.lookup e.key with
    | none => simp [mirrorEvent, hlookup, offer]
    | some existing => simp [mirrorEvent, hlookup, offer, LwwValue.merge_eq_keepMax]
  · rw [if_neg hk, mirrorEvent, AList.lookup_insert_ne (Ne.symm hk)]

theorem lookup_foldl_mirrorEvent (events : List StateEvent) (mirror : StateMap) (k : String) :
    (events.foldl mirrorEvent mirror).lookup k
      = offers LwwValue.stamp (mirror.lookup k) (eventValues events k) := by
  induction events generalizing mirror with
  | nil => rfl
  | cons e rest ih =>
      rw [List.foldl_cons, ih, lookup_mirrorEvent]
      by_cases hk : e.key = k
      · simp [eventValues, hk]
      · simp [eventValues, hk]

theorem eventValues_snapshot (snapshot : StateDelta) (k : String) :
    eventValues (snapshot.map fun entry => StateEvent.mk entry.1 entry.2) k
      = valuesFor snapshot k := by
  simp [eventValues, valuesFor, List.filter_map, Function.comp_def]

theorem offers_snapshot {store : StateStore} {snapshot : StateDelta}
    (hperm : snapshot.Perm store.snapshot) (k : String) :
    offers LwwValue.stamp none (valuesFor snapshot k) = store.get k := by
  have hmem : ∀ v, v ∈ valuesFor snapshot k ↔ store.get k = some v := by
    intro v
    rw [mem_valuesFor, hperm.mem_iff]
    exact mem_iter
  cases hget : store.get k with
  | none =>
      rw [offers_eq_none_iff, List.eq_nil_iff_forall_not_mem]
      intro v hv
      rw [hmem, hget] at hv
      exact absurd hv (by simp)
  | some v =>
      have hsame : ∀ w ∈ valuesFor snapshot k, w = v := by
        intro w hw
        rw [hmem, hget] at hw
        exact (Option.some.inj hw).symm
      rw [offers_of_forall_eq ((hmem v).mpr hget) hsame]
      rfl

theorem lookup_mirrorOf {store : StateStore} {snapshot : StateDelta}
    (hperm : snapshot.Perm store.snapshot) (events : List StateEvent) (k : String) :
    (mirrorOf snapshot events).lookup k
      = offers LwwValue.stamp (store.get k) (eventValues events k) := by
  rw [mirrorOf, lookup_foldl_mirrorEvent, eventValues_append, offers_append, eventValues_snapshot,
    AList.lookup_empty, offers_snapshot hperm]

namespace LiveStore

/-- What a client that has folded the events from position `n` on into the map `base` has of a key,
against what the store holds. -/
structure Mirrors (n : Nat) (base : String → Option LwwValue) (live : LiveStore) : Prop where
  consistent : live.Consistent
  subscribed : n ≤ live.events.length
  behind : ∀ k, Behind LwwValue.stamp
    (offers LwwValue.stamp (base k) (eventValues (live.events.drop n) k)) (live.get k)
  owed : ∀ k v, live.get k = some v →
    offers LwwValue.stamp (base k) (eventValues (live.events.drop n) k) = some v ∨ live.Owed k v

theorem Mirrors.step {n : Nat} {base : String → Option LwwValue} {live live' : LiveStore}
    {a : StoreAction} (h : Mirrors n base live) (hstep : live.step a = some live') :
    Mirrors n base live' := by
  have hbehind := step_behind hstep
  obtain ⟨sent, hevents, hholder, howed⟩ := step_announces hstep
  have hreceived : ∀ k, eventValues (live'.events.drop n) k
      = eventValues (live.events.drop n) k ++ eventValues sent k := by
    intro k
    rw [hevents, List.drop_append_of_le_length h.subscribed, eventValues_append]
  have hsentBehind : ∀ k w, w ∈ eventValues sent k →
      Behind LwwValue.stamp (some w) (live.get k) := by
    intro k w hw
    obtain ⟨i, task, _, htask, hholds⟩ := hholder k w hw
    exact h.consistent.holding task (List.mem_of_getElem? htask) k w hholds
  have hnext : ∀ k, Behind LwwValue.stamp (offers LwwValue.stamp
      (offers LwwValue.stamp (base k) (eventValues (live.events.drop n) k)) (eventValues sent k))
      (live'.get k) := fun k =>
    ((h.behind k).offers (hsentBehind k)).trans (hbehind k)
  refine ⟨h.consistent.step hstep, ?_, ?_, ?_⟩
  · rw [hevents, List.length_append]
    exact le_trans h.subscribed (Nat.le_add_right _ _)
  · intro k
    rw [hreceived, offers_append]
    exact hnext k
  · intro k v hv
    rw [hreceived, offers_append]
    rcases howed k v hv with howes | hpaid | ⟨hold, hnot⟩
    · exact Or.inr howes
    · -- the debt is paid by the event of this step
      have hle := stamp_le_offers LwwValue.stamp
        (offers LwwValue.stamp (base k) (eventValues (live.events.drop n) k)) hpaid
      have hnextk := hnext k
      rw [hv] at hnextk
      exact Or.inl (hnextk.eq_of_stamp_le hle)
    · left
      rw [(h.owed k v hold).resolve_right hnot]
      apply offers_of_forall_stamp_le
      intro w hw
      rw [← hold]
      exact (hsentBehind k w hw).stamp_le

theorem Mirrors.of_consistent {n : Nat} {live : LiveStore} (h : live.Consistent)
    (hn : n ≤ live.events.length) : Mirrors n live.get live := by
  have hcurrent : ∀ k, offers LwwValue.stamp (live.get k) (eventValues (live.events.drop n) k)
      = live.get k := by
    intro k
    apply offers_of_forall_stamp_le
    intro w hw
    exact (h.events _ (List.mem_of_mem_drop (mem_eventValues.mp hw))).stamp_le
  refine ⟨h, hn, ?_, ?_⟩
  · intro k
    rw [hcurrent]
    exact Behind.refl _
  · intro k v hv
    exact Or.inl ((hcurrent k).trans hv)

theorem run_events_length {live live' : LiveStore} {as : List StoreAction}
    (hrun : Machine.run LiveStore.step live as = some live') :
    live.events.length ≤ live'.events.length := by
  refine Machine.run_rel (R := fun s t : LiveStore => s.events.length ≤ t.events.length)
    (fun _ => le_rfl) (fun _ _ _ => le_trans) ?_ hrun
  intro s a t hstep
  obtain ⟨task, rfl, _⟩ | ⟨i, task, task', sent, _, _, _, _, hevents, _⟩ := step_cases hstep
  · exact le_rfl
  · rw [hevents, List.length_append]
    exact Nat.le_add_right _ _

/-- **The event stream is a complete replication feed.** A client subscribes in `subscribed`, takes
its snapshot later, in `snapshotted`, and folds everything it receives into it. Once nothing is in
progress its mirror is the store's map. -/
theorem mirrorOf_eq_store {start subscribed snapshotted final : LiveStore}
    {before between after : List StoreAction} {snapshot : StateDelta}
    (htasks : start.tasks = []) (hevents : start.events = [])
    (hbefore : Machine.run LiveStore.step start before = some subscribed)
    (hbetween : Machine.run LiveStore.step subscribed between = some snapshotted)
    (hsnapshot : snapshot.Perm snapshotted.snapshot)
    (hafter : Machine.run LiveStore.step snapshotted after = some final)
    (hidle : final.Idle) (k : String) :
    (mirrorOf snapshot (final.events.drop subscribed.events.length)).lookup k = final.get k := by
  have hconsistent : snapshotted.Consistent :=
    run_consistent (run_consistent (consistent_of_tasks_nil htasks hevents) hbefore) hbetween
  have hmirrors : Mirrors subscribed.events.length snapshotted.get final :=
    Machine.run_invariant (fun _ _ _ hs hstep => Mirrors.step hs hstep)
      (Mirrors.of_consistent hconsistent (run_events_length hbetween)) hafter
  rw [lookup_mirrorOf hsnapshot]
  cases hget : final.get k with
  | none =>
      have hbehind := hmirrors.behind k
      rw [hget] at hbehind
      exact hbehind.eq_none
  | some v => exact (hmirrors.owed k v hget).resolve_right (not_owed_of_idle hidle k v)

/-- A `set` whose event is sent only after a gossip merge has replaced its value. -/
theorem mirrorOf_eq_store_overtaken :
    ∃ subscribed snapshotted final,
      Machine.run LiveStore.step (LiveStore.new "node-a") [.callSet "k" "old" 1] = some subscribed
        ∧ Machine.run LiveStore.step subscribed [.advance 0] = some snapshotted
        ∧ Machine.run LiveStore.step snapshotted
            [.callMerge [("k", { value := "new", timestamp := 2, nodeId := "node-b" })],
              .advance 1, .advance 1, .advance 1, .advance 0, .advance 1] = some final
        ∧ final.Idle
        ∧ (mirrorOf snapshotted.snapshot
            (final.events.drop subscribed.events.length)).lookup "k" = final.get "k" := by
  have hruns : ((Machine.run LiveStore.step (LiveStore.new "node-a") [.callSet "k" "old" 1]).any
      fun subscribed => (Machine.run LiveStore.step subscribed [.advance 0]).any
        fun snapshotted => (Machine.run LiveStore.step snapshotted
            [.callMerge [("k", { value := "new", timestamp := 2, nodeId := "node-b" })],
              .advance 1, .advance 1, .advance 1, .advance 0, .advance 1]).any
          fun final => decide final.Idle) = true := by decide
  obtain ⟨subscribed, hsubscribed, hruns⟩ := Machine.exists_of_any_run hruns
  obtain ⟨snapshotted, hsnapshotted, hruns⟩ := Machine.exists_of_any_run hruns
  obtain ⟨final, hfinal, hidle⟩ := Machine.exists_of_any_run hruns
  have hidle : final.Idle := of_decide_eq_true hidle
  exact ⟨subscribed, snapshotted, final, hsubscribed, hsnapshotted, hfinal, hidle,
    mirrorOf_eq_store rfl rfl hsubscribed hsnapshotted (List.Perm.refl _) hfinal hidle "k"⟩

end LiveStore

end StateSync
