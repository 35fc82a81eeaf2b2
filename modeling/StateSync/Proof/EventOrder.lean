import StateSync.Proof.Mirror

/-!
# The order of one key's events

The lock is released before an event is sent, so two operations on a key can send their events in
the other order than they wrote. What the channel does promise is below: no event is ever ahead of
the map, and the newest event is the map's entry once nothing is in progress. The events come in
order when each one that is sent is the oldest that some operation still has to send, and in a run
that is complete only then.
-/

namespace StateSync.LiveStore

open Register

def EventsInOrder (live : LiveStore) (k : String) : Prop :=
  (eventValues live.events k).Pairwise fun v w => v.stamp ≤ w.stamp

instance (live : LiveStore) (k : String) : Decidable (live.EventsInOrder k) :=
  inferInstanceAs (Decidable ((eventValues live.events k).Pairwise fun v w => v.stamp ≤ w.stamp))

/-- Some task has read this entry from the map and not yet sent its event. -/
def Held (live : LiveStore) (k : String) (v : LwwValue) : Prop :=
  ∃ task ∈ live.tasks, (k, v) ∈ task.holding

/-- If the action sends an event for `k`, no task holds an older entry for `k`. -/
def SendsOldest (k : String) (live : LiveStore) : StoreAction → Prop
  | .advance i => ∀ task ∈ live.tasks[i]?, ∀ entry ∈ task.holding, entry.1 = k →
      ∀ other ∈ live.tasks, ∀ held ∈ other.holding, held.1 = k → entry.2.stamp ≤ held.2.stamp
  | _ => True

instance (k : String) (live : LiveStore) : ∀ a, Decidable (SendsOldest k live a)
  | .advance i => inferInstanceAs (Decidable (∀ task ∈ live.tasks[i]?, ∀ entry ∈ task.holding,
      entry.1 = k → ∀ other ∈ live.tasks, ∀ held ∈ other.holding, held.1 = k →
        entry.2.stamp ≤ held.2.stamp))
  | .callSet _ _ _ => isTrue trivial
  | .callMerge _ => isTrue trivial

/-- Two writers store in one order and send in the other: the older event comes last, and is not
what the store holds. -/
theorem events_out_of_order :
    ∃ final, Machine.run LiveStore.step (LiveStore.new "node-a")
        [.callSet "k" "first" 1, .callSet "k" "second" 2,
          .advance 0, .advance 1, .advance 1, .advance 0] = some final
      ∧ final.Idle ∧ ¬ final.EventsInOrder "k"
      ∧ (eventValues final.events "k").getLast? ≠ final.get "k" := by
  have hrun : (Machine.run LiveStore.step (LiveStore.new "node-a")
      [.callSet "k" "first" 1, .callSet "k" "second" 2,
        .advance 0, .advance 1, .advance 1, .advance 0]).any (fun final =>
      decide (final.Idle ∧ ¬ final.EventsInOrder "k"
        ∧ (eventValues final.events "k").getLast? ≠ final.get "k")) = true := by decide
  obtain ⟨final, hfinal, hfacts⟩ := Machine.exists_of_any_run hrun
  exact ⟨final, hfinal, of_decide_eq_true hfacts⟩

/-! ### What a step does to the entries that are held -/

theorem not_held_of_idle {live : LiveStore} (hidle : live.Idle) (k : String) (v : LwwValue) :
    ¬ live.Held k v := by
  rintro ⟨task, htask, hholds⟩
  exact not_owed_of_idle hidle k v ⟨task, htask, Or.inl hholds⟩

/-- An entry that is held after a step was held before it or is the map's. -/
theorem held_step {live live' : LiveStore} {a : StoreAction} (hstep : live.step a = some live')
    {k : String} {v : LwwValue} (hheld : live'.Held k v) :
    live.Held k v ∨ live'.get k = some v := by
  obtain ⟨task, hmem, hholds⟩ := hheld
  obtain ⟨t, rfl, _, hnone, _⟩ | ⟨i, t, t', sent, _, _, _, htasks, _, hadvance⟩ := step_cases hstep
  · obtain hold | hnew := List.mem_append.mp hmem
    · exact Or.inl ⟨task, hold, hholds⟩
    · rw [List.mem_singleton.mp hnew, hnone] at hholds
      exact absurd hholds List.not_mem_nil
  · rw [htasks] at hmem
    obtain hold | rfl := List.mem_or_eq_of_mem_set hmem
    · exact Or.inl ⟨task, hold, hholds⟩
    · exact Or.inr ((Task.advance_spec hadvance).holding (k, v) hholds)

/-- A step sends what its task holds, and what it does not send is held as before. -/
theorem step_sends {live live' : LiveStore} {a : StoreAction} (hstep : live.step a = some live')
    (k : String) :
    ∃ sent, eventValues live'.events k = eventValues live.events k ++ sent
      ∧ (∀ w ∈ sent, ∃ i task, a = .advance i ∧ live.tasks[i]? = some task ∧ (k, w) ∈ task.holding)
      ∧ (∀ i task w, a = .advance i → live.tasks[i]? = some task → (k, w) ∈ task.holding →
          w ∈ sent)
      ∧ ∀ w, live.Held k w → live'.Held k w ∨ w ∈ sent := by
  obtain ⟨t, rfl, _, _, _, hcall⟩ | ⟨i, t, t', sent, rfl, ht, _, htasks, hevents, hadvance⟩ :=
    step_cases hstep
  · refine ⟨[], by simp, by simp, ?_, ?_⟩
    · rintro i task w rfl
      obtain ⟨_, _, _, heq, _⟩ | ⟨_, heq, _⟩ := hcall <;> cases heq
    · rintro w ⟨task, hmem, hholds⟩
      exact Or.inl ⟨task, List.mem_append_left _ hmem, hholds⟩
  · have hsent (w : LwwValue) : w ∈ eventValues sent k ↔ (k, w) ∈ t.holding := by
      rw [mem_eventValues, (Task.advance_spec hadvance).sent]
      simp
    refine ⟨eventValues sent k, by rw [hevents, eventValues_append], ?_, ?_, ?_⟩
    · intro w hw
      exact ⟨i, t, rfl, ht, (hsent w).mp hw⟩
    · intro j task w heq htask hholds
      obtain rfl : i = j := by simpa using heq
      obtain rfl : t = task := Option.some.inj (ht.symm.trans htask)
      exact (hsent w).mpr hholds
    · rintro w ⟨task, hmem, hholds⟩
      obtain hmem | rfl := Slots.mem_set_or_eq t' ht hmem
      · exact Or.inl ⟨task, htasks ▸ hmem, hholds⟩
      · exact Or.inr ((hsent w).mpr hholds)

theorem Consistent.stamp_le {live : LiveStore} (h : live.Consistent) {k : String} {v w : LwwValue}
    (hv : v ∈ eventValues live.events k) (hw : live.get k = some w) : v.stamp ≤ w.stamp := by
  have hle := (h.events _ (mem_eventValues.mp hv)).stamp_le
  rw [hw] at hle
  exact WithBot.coe_le_coe.mp hle

/-! ### Oldest first is in order -/

/-- What holds of one key while the oldest entry is always sent first. -/
structure InOrder (k : String) (live : LiveStore) : Prop where
  consistent : live.Consistent
  ordered : live.EventsInOrder k
  held : ∀ v ∈ eventValues live.events k, ∀ w, live.Held k w → v.stamp ≤ w.stamp

theorem InOrder.step {k : String} {live live' : LiveStore} {a : StoreAction} (h : InOrder k live)
    (hguard : SendsOldest k live a) (hstep : live.step a = some live') : InOrder k live' := by
  obtain ⟨sent, hvalues, hholder, _⟩ := step_sends hstep k
  have hoftask {w : LwwValue} (hw : w ∈ sent) : live.Held k w := by
    obtain ⟨i, task, _, htask, hholds⟩ := hholder w hw
    exact ⟨task, List.mem_of_getElem? htask, hholds⟩
  have holdest {v w : LwwValue} (hv : v ∈ sent) (hw : live.Held k w) : v.stamp ≤ w.stamp := by
    obtain ⟨i, task, rfl, htask, hholds⟩ := hholder v hv
    obtain ⟨other, hother, hholds'⟩ := hw
    exact hguard task htask (k, v) hholds rfl other hother (k, w) hholds' rfl
  have hconsistent := h.consistent.step hstep
  refine ⟨hconsistent, ?_, ?_⟩
  · unfold EventsInOrder
    rw [hvalues, List.pairwise_append]
    refine ⟨h.ordered, ?_, fun v hv w hw => h.held v hv w (hoftask hw)⟩
    apply List.pairwise_of_forall_mem_list
    intro v hv w hw
    exact holdest hv (hoftask hw)
  · intro v hv w hw
    obtain hw | hget := held_step hstep hw
    · rw [hvalues] at hv
      obtain hv | hv := List.mem_append.mp hv
      · exact h.held v hv w hw
      · exact holdest hv hw
    · exact hconsistent.stamp_le hv hget

theorem run_inOrder {k : String} {live live' : LiveStore} {as : List StoreAction}
    (h : InOrder k live) (hguarded : Machine.Guarded LiveStore.step (SendsOldest k) live as)
    (hrun : Machine.run LiveStore.step live as = some live') : InOrder k live' :=
  Machine.run_invariant_of_guarded (fun _ _ _ hs hg hstep => InOrder.step hs hg hstep) h hguarded
    hrun

/-- The last of events that are in order is the map's entry, if that was announced. -/
theorem getLast?_of_ordered {live : LiveStore} {k : String} (h : live.Consistent)
    (hordered : live.EventsInOrder k)
    (hannounced : ∀ v, live.get k = some v → v ∈ eventValues live.events k) :
    (eventValues live.events k).getLast? = live.get k := by
  cases hget : live.get k with
  | none =>
      rw [List.getLast?_eq_none_iff]
      apply List.eq_nil_iff_forall_not_mem.mpr
      intro v hv
      have hbehind := h.events _ (mem_eventValues.mp hv)
      rw [hget] at hbehind
      exact absurd hbehind.eq_none (by simp)
  | some v =>
      obtain ⟨before, last, heq⟩ :=
        (List.eq_nil_or_concat' (eventValues live.events k)).resolve_left
          (List.ne_nil_of_mem (hannounced v hget))
      have hbehind : Behind LwwValue.stamp (some last) (live.get k) :=
        h.events _ (mem_eventValues.mp (heq ▸ List.mem_concat_self))
      have hle : v.stamp ≤ last.stamp := by
        have hmem := hannounced v hget
        rw [heq, List.mem_append, List.mem_singleton] at hmem
        obtain hmem | rfl := hmem
        · unfold EventsInOrder at hordered
          rw [heq, List.pairwise_append] at hordered
          exact hordered.2.2 v hmem last (List.mem_singleton_self last)
        · exact le_rfl
      rw [heq, List.getLast?_concat]
      rw [hget] at hbehind
      obtain hsame | hlt := hbehind
      · exact hsame
      · exact absurd (WithBot.coe_lt_coe.mp hlt) (not_lt.mpr hle)

/-! ### Anything else is not -/

/-- An event was sent ahead of an older one, or is going to be. -/
def Overtaken (k : String) (live : LiveStore) : Prop :=
  ¬ live.EventsInOrder k
    ∨ ∃ v ∈ eventValues live.events k, ∃ w, live.Held k w ∧ w.stamp < v.stamp

theorem Overtaken.step {k : String} {live live' : LiveStore} {a : StoreAction}
    (h : Overtaken k live) (hstep : live.step a = some live') : Overtaken k live' := by
  obtain ⟨sent, hvalues, _, _, hkept⟩ := step_sends hstep k
  by_cases hordered : live'.EventsInOrder k
  · unfold EventsInOrder at hordered
    rw [hvalues, List.pairwise_append] at hordered
    obtain hnot | ⟨v, hv, w, hheld, hlt⟩ := h
    · exact absurd hordered.1 hnot
    · obtain hheld | hw := hkept w hheld
      · exact Or.inr ⟨v, hvalues ▸ List.mem_append_left _ hv, w, hheld, hlt⟩
      · exact absurd hlt (not_lt.mpr (hordered.2.2 v hv w hw))
  · exact Or.inl hordered

theorem eq_of_mem_holding {task : Task} {entry entry' : String × LwwValue}
    (h : entry ∈ task.holding) (h' : entry' ∈ task.holding) : entry = entry' := by
  unfold Task.holding at h h'
  split at h
  · rw [List.mem_singleton.mp h, List.mem_singleton.mp h']
  · rw [List.mem_singleton.mp h, List.mem_singleton.mp h']
  · exact absurd h List.not_mem_nil

theorem overtaken_of_not_sendsOldest {k : String} {live live' : LiveStore} {a : StoreAction}
    (hnot : ¬ SendsOldest k live a) (hstep : live.step a = some live') : Overtaken k live' := by
  obtain ⟨sent, hvalues, hholder, hsends, hkept⟩ := step_sends hstep k
  cases a with
  | advance i =>
      simp only [SendsOldest, not_forall] at hnot
      obtain ⟨task, htask, ⟨k, v⟩, hv, rfl, other, hother, ⟨k', w⟩, hw, rfl, hlt⟩ := hnot
      have hlt : w.stamp < v.stamp := not_le.mp hlt
      have hsent : v ∈ sent := hsends i task v rfl htask hv
      obtain hheld | hsent' := hkept w ⟨other, hother, hw⟩
      · exact Or.inr ⟨v, hvalues ▸ List.mem_append_right _ hsent, w, hheld, hlt⟩
      · obtain ⟨j, task', heq, htask', hw'⟩ := hholder w hsent'
        obtain rfl : i = j := by simpa using heq
        obtain rfl : task = task' := Option.some.inj (htask.symm.trans htask')
        obtain rfl : v = w := congrArg Prod.snd (eq_of_mem_holding hv hw')
        exact absurd hlt (lt_irrefl _)
  | callSet key value now => exact absurd trivial hnot
  | callMerge delta => exact absurd trivial hnot

theorem guarded_or_overtaken {k : String} {live live' : LiveStore} {as : List StoreAction}
    (hrun : Machine.run LiveStore.step live as = some live') :
    Machine.Guarded LiveStore.step (SendsOldest k) live as ∨ Overtaken k live' := by
  induction as generalizing live with
  | nil => exact Or.inl trivial
  | cons a as ih =>
      obtain ⟨u, hu, htail⟩ := Machine.run_cons_eq_some.mp hrun
      by_cases hguard : SendsOldest k live a
      · refine (ih htail).imp (fun h => ⟨hguard, ?_⟩) id
        intro t ht
        obtain rfl : u = t := Option.some.inj (hu.symm.trans ht)
        exact h
      · refine Or.inr (Machine.run_invariant (P := Overtaken k) (fun _ _ _ h hstep => h.step hstep)
          (overtaken_of_not_sendsOldest hguard hu) htail)

/-- **The events of one key.** In every run no event is ahead of the map, and once nothing is in
progress the map's entry has been announced, so it is the newest event. If each event that is sent
is the oldest that some operation still has to send, the events come in order, and when nothing is
in progress the last one is what the store returns; and a run that ends with nothing in progress has
its events in order only if it was so. -/
theorem events_of_key {nodeId : String} {as : List StoreAction} {final : LiveStore}
    (hrun : Machine.run LiveStore.step (LiveStore.new nodeId) as = some final) (k : String) :
    (∀ v ∈ eventValues final.events k, Behind LwwValue.stamp (some v) (final.get k))
      ∧ (final.Idle → ∀ v, final.get k = some v → v ∈ eventValues final.events k)
      ∧ (Machine.Guarded LiveStore.step (SendsOldest k) (LiveStore.new nodeId) as →
          final.EventsInOrder k
            ∧ (final.Idle → (eventValues final.events k).getLast? = final.get k))
      ∧ (final.Idle → final.EventsInOrder k →
          Machine.Guarded LiveStore.step (SendsOldest k) (LiveStore.new nodeId) as) := by
  have hnew : (LiveStore.new nodeId).Consistent := consistent_of_tasks_nil rfl rfl
  have hconsistent := run_consistent hnew hrun
  have hannounced (hidle : final.Idle) (v : LwwValue) (hv : final.get k = some v) :
      v ∈ eventValues final.events k := by
    have hmirrors : Mirrors 0 (LiveStore.new nodeId).get final :=
      Machine.run_invariant (fun _ _ _ hs hstep => Mirrors.step hs hstep)
        (Mirrors.of_consistent hnew (Nat.zero_le _)) hrun
    have hmirror := (hmirrors.owed k v hv).resolve_right (not_owed_of_idle hidle k v)
    rcases offers_cases LwwValue.stamp ((LiveStore.new nodeId).get k)
      (eventValues (final.events.drop 0) k) with hnone | ⟨w, hw, heq, _⟩
    · rw [hnone] at hmirror
      exact absurd hmirror (by simp [LiveStore.new, StateStore.new, StateStore.get])
    · rw [heq, Option.some.injEq] at hmirror
      exact hmirror ▸ hw
  refine ⟨fun v hv => hconsistent.events _ (mem_eventValues.mp hv), hannounced, ?_, ?_⟩
  · intro hguarded
    have hinit : InOrder k (LiveStore.new nodeId) :=
      ⟨hnew, List.Pairwise.nil, fun v hv => absurd hv List.not_mem_nil⟩
    have hinOrder := run_inOrder hinit hguarded hrun
    exact ⟨hinOrder.ordered,
      fun hidle => getLast?_of_ordered hconsistent hinOrder.ordered (hannounced hidle)⟩
  · intro hidle hordered
    refine (guarded_or_overtaken hrun).resolve_right ?_
    rintro (hnot | ⟨v, _, w, hheld, _⟩)
    · exact hnot hordered
    · exact not_held_of_idle hidle k w hheld

/-- Both writers store before either sends, in the order in which they send. -/
theorem events_of_key_two_writers :
    ∃ final, Machine.run LiveStore.step (LiveStore.new "node-a")
        [.callSet "k" "first" 1, .callSet "k" "second" 2,
          .advance 0, .advance 1, .advance 0, .advance 1] = some final
      ∧ final.EventsInOrder "k" ∧ (eventValues final.events "k").getLast? = final.get "k" := by
  have hrun : (Machine.run LiveStore.step (LiveStore.new "node-a")
      [.callSet "k" "first" 1, .callSet "k" "second" 2,
        .advance 0, .advance 1, .advance 0, .advance 1]).any
      (fun final => decide final.Idle) = true := by decide
  obtain ⟨final, hfinal, hidle⟩ := Machine.exists_of_any_run hrun
  obtain ⟨hordered, hlast⟩ := (events_of_key hfinal "k").2.2.1 (by decide)
  exact ⟨final, hfinal, hordered, hlast (of_decide_eq_true hidle)⟩

end StateSync.LiveStore
