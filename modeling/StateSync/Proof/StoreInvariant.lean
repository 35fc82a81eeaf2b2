import StateSync.Lib.Slots
import StateSync.State.Live

/-!
# What every interleaving keeps of one store

A key only ever moves up in `Behind`: it keeps its entry, or takes one with a strictly greater
stamp. Hence what a task has read from the map, and every event it went on to send, stays behind the
map for ever, and the map stays at least as new as everything it was offered.
-/

namespace StateSync

open Register

namespace Task

variable {state state' : StateMap} {task task' : Task} {sent : List StateEvent}

theorem Advances.behind (h : Advances state state' task task' sent) (k : String) :
    Behind LwwValue.stamp (state.lookup k) (state'.lookup k) := by
  rw [h.lookup k]
  exact behind_offers _ _

theorem Advances.dominates (h : Advances state state' task task' sent) {k : String} {v : LwwValue}
    (hv : (k, v) ∈ task.offering) : state'.Dominates k v := by
  unfold StateMap.Dominates StateMap.stampAt
  rw [h.lookup k]
  exact stamp_le_offers _ _ (mem_valuesFor.mpr hv)

theorem Advances.lookup_cases (h : Advances state state' task task' sent) (k : String) :
    state'.lookup k = state.lookup k ∨
      ∃ v, (k, v) ∈ task.offering ∧ state'.lookup k = some v ∧ state.stampAt k < v.stamp := by
  have hcases := offers_cases LwwValue.stamp (state.lookup k) (valuesFor task.offering k)
  rw [← h.lookup k] at hcases
  refine hcases.imp id ?_
  rintro ⟨v, hv, hlookup, hlt⟩
  exact ⟨v, mem_valuesFor.mp hv, hlookup, hlt⟩

end Task

theorem StateMap.Dominates.mono {state state' : StateMap} {k : String} {v : LwwValue}
    (h : state.Dominates k v)
    (hbehind : Behind LwwValue.stamp (state.lookup k) (state'.lookup k)) : state'.Dominates k v :=
  le_trans h hbehind.stamp_le

theorem StateMap.dominates_of_behind {state : StateMap} {k : String} {v : LwwValue}
    (h : Behind LwwValue.stamp (some v) (state.lookup k)) : state.Dominates k v :=
  h.stamp_le

namespace LiveStore

variable {live live' : LiveStore}

theorem step_behind {a : StoreAction} (hstep : live.step a = some live') (k : String) :
    Behind LwwValue.stamp (live.get k) (live'.get k) := by
  obtain ⟨task, rfl, _⟩ | ⟨i, task, task', sent, _, _, _, _, _, hadvance⟩ := step_cases hstep
  · exact Behind.refl _
  · exact (Task.advance_spec hadvance).behind k

theorem run_behind {as : List StoreAction} (hrun : Machine.run step live as = some live')
    (k : String) : Behind LwwValue.stamp (live.get k) (live'.get k) :=
  Machine.run_rel (R := fun s t : LiveStore => Behind LwwValue.stamp (s.get k) (t.get k))
    (fun _ => Behind.refl _) (fun _ _ _ => Behind.trans) (fun _ _ _ h => step_behind h k) hrun

theorem get_step {a : StoreAction} (hstep : live.step a = some live') {k : String} {v : LwwValue}
    (hv : live'.get k = some v) :
    live.get k = some v ∨ ∃ i task, a = .advance i ∧ live.tasks[i]? = some task
      ∧ (k, v) ∈ task.offering ∧ live.state.stampAt k < v.stamp := by
  obtain ⟨task, rfl, _⟩ | ⟨i, task, task', sent, ha, htask, _, _, _, hadvance⟩ := step_cases hstep
  · exact Or.inl hv
  · obtain hsame | ⟨w, hw, hlookup, hlt⟩ := (Task.advance_spec hadvance).lookup_cases k
    · exact Or.inl (hsame.symm.trans hv)
    · obtain rfl : v = w := Option.some.inj (hv.symm.trans hlookup)
      exact Or.inr ⟨i, task, ha, htask, hw, hlt⟩

theorem step_nodeId {a : StoreAction} (hstep : live.step a = some live') :
    live'.nodeId = live.nodeId := by
  obtain ⟨task, rfl, _⟩ | ⟨i, task, task', sent, _, _, hid, _⟩ := step_cases hstep
  · rfl
  · exact hid

theorem mem_tasks_step {a : StoreAction} (hstep : live.step a = some live') {task : Task}
    (htask : task ∈ live'.tasks) :
    (∃ old ∈ live.tasks, task.origin = old.origin)
      ∨ (∃ key value now, a = .callSet key value now
          ∧ task.origin = .set key (LwwValue.new value live.nodeId now) .drawn)
      ∨ ∃ delta, a = .callMerge delta ∧ task.origin = .merge delta .called := by
  obtain ⟨t, rfl, _, _, _, hcall⟩ | ⟨i, t, t', sent, _, ht, _, htasks, _, hadvance⟩ :=
    step_cases hstep
  · obtain hold | hnew := List.mem_append.mp htask
    · exact Or.inl ⟨task, hold, rfl⟩
    · rw [List.mem_singleton.mp hnew]
      obtain ⟨key, value, now, ha, rfl⟩ | ⟨delta, ha, rfl⟩ := hcall
      · exact Or.inr (Or.inl ⟨key, value, now, ha, rfl⟩)
      · exact Or.inr (Or.inr ⟨delta, ha, rfl⟩)
  · rw [htasks] at htask
    obtain hold | rfl := List.mem_or_eq_of_mem_set htask
    · exact Or.inl ⟨task, hold, rfl⟩
    · exact Or.inl ⟨t, List.mem_of_getElem? ht, (Task.advance_spec hadvance).origin⟩

/-- What the tasks and the channel say about the map is true of it. -/
structure Consistent (live : LiveStore) : Prop where
  offered : ∀ task ∈ live.tasks, ∀ k v, (k, v) ∈ task.offered → live.state.Dominates k v
  holding : ∀ task ∈ live.tasks, ∀ k v, (k, v) ∈ task.holding →
    Behind LwwValue.stamp (some v) (live.get k)
  events : ∀ e ∈ live.events, Behind LwwValue.stamp (some e.value) (live.get e.key)

theorem consistent_of_tasks_nil (htasks : live.tasks = []) (hevents : live.events = []) :
    Consistent live where
  offered := by simp [htasks]
  holding := by simp [htasks]
  events := by simp [hevents]

theorem Consistent.call (h : Consistent live) {task : Task} (hoffered : task.offered = [])
    (hholding : task.holding = []) : Consistent { live with tasks := live.tasks ++ [task] } where
  offered := by
    intro t ht k v hv
    rcases List.mem_append.mp ht with ht | ht
    · exact h.offered t ht k v hv
    · rw [List.mem_singleton.mp ht, hoffered] at hv
      exact absurd hv List.not_mem_nil
  holding := by
    intro t ht k v hv
    rcases List.mem_append.mp ht with ht | ht
    · exact h.holding t ht k v hv
    · rw [List.mem_singleton.mp ht, hholding] at hv
      exact absurd hv List.not_mem_nil
  events := h.events

theorem Consistent.step (h : Consistent live) {a : StoreAction} (hstep : live.step a = some live') :
    Consistent live' := by
  have hbehind := step_behind hstep
  obtain ⟨task, rfl, hoffered, hholding, _⟩ | ⟨i, task, task', sent, _, htask, _, htasks, hevents,
    hadvance⟩ := step_cases hstep
  · exact h.call hoffered hholding
  · have hspec := Task.advance_spec hadvance
    have hmem : task ∈ live.tasks := List.mem_of_getElem? htask
    refine ⟨?_, ?_, ?_⟩
    · intro t ht k v hv
      rw [htasks] at ht
      rcases List.mem_or_eq_of_mem_set ht with ht | rfl
      · exact (h.offered t ht k v hv).mono (hbehind k)
      · rw [hspec.offered] at hv
        rcases List.mem_append.mp hv with hv | hv
        · exact (h.offered task hmem k v hv).mono (hbehind k)
        · exact hspec.dominates hv
    · intro t ht k v hv
      rw [htasks] at ht
      rcases List.mem_or_eq_of_mem_set ht with ht | rfl
      · exact (h.holding t ht k v hv).trans (hbehind k)
      · exact Or.inl (hspec.holding (k, v) hv).symm
    · intro e he
      rw [hevents] at he
      rcases List.mem_append.mp he with he | he
      · exact (h.events e he).trans (hbehind e.key)
      · -- an event that is sent now was held by the task that sends it
        rw [hspec.sent] at he
        obtain ⟨⟨k, v⟩, hentry, rfl⟩ := List.mem_map.mp he
        exact (h.holding task hmem k v hentry).trans (hbehind k)

theorem run_consistent {as : List StoreAction} (h : Consistent live)
    (hrun : Machine.run LiveStore.step live as = some live') : Consistent live' :=
  Machine.run_invariant (fun _ _ _ hs hstep => Consistent.step hs hstep) h hrun

end LiveStore

/-! ### What is still to be announced -/

def eventValues (events : List StateEvent) (k : String) : List LwwValue :=
  (events.filter fun e => e.key = k).map StateEvent.value

theorem mem_eventValues {events : List StateEvent} {k : String} {v : LwwValue} :
    v ∈ eventValues events k ↔ { key := k, value := v } ∈ events := by
  simp only [eventValues, List.mem_map, List.mem_filter, decide_eq_true_eq]
  constructor
  · rintro ⟨e, ⟨he, rfl⟩, rfl⟩
    exact he
  · intro he
    exact ⟨_, ⟨he, rfl⟩, rfl⟩

theorem eventValues_append (events sent : List StateEvent) (k : String) :
    eventValues (events ++ sent) k = eventValues events k ++ eventValues sent k := by
  simp [eventValues]

namespace LiveStore

/-- Some task is going to announce the entry the store holds for the key. -/
def Owed (live : LiveStore) (k : String) (v : LwwValue) : Prop :=
  ∃ task ∈ live.tasks, (k, v) ∈ task.holding ∨ k ∈ task.pending

theorem not_owed_of_idle {live : LiveStore} (hidle : live.Idle) (k : String) (v : LwwValue) :
    ¬ live.Owed k v := by
  rintro ⟨task, htask, howes⟩
  have hreturned := hidle task htask
  cases task with
  | set key incoming pc =>
      cases pc with
      | returned winner => simp [Task.holding, Task.pending] at howes
      | drawn => simp [Task.isReturned] at hreturned
      | stored winner => simp [Task.isReturned] at hreturned
  | merge delta pc =>
      cases pc with
      | returned updated => simp [Task.holding, Task.pending] at howes
      | called => simp [Task.isReturned] at hreturned
      | announcing updated pending => simp [Task.isReturned] at hreturned
      | reread updated key val pending => simp [Task.isReturned] at hreturned

/-- **What a step announces.** Each event it sends was held by the task that takes it, and an entry
the map holds afterwards is owed by some task, or announced by this very step, or was held before
and owed by none. -/
theorem step_announces {live live' : LiveStore} {a : StoreAction}
    (hstep : live.step a = some live') :
    ∃ sent, live'.events = live.events ++ sent
      ∧ (∀ k w, w ∈ eventValues sent k →
          ∃ i task, a = .advance i ∧ live.tasks[i]? = some task ∧ (k, w) ∈ task.holding)
      ∧ ∀ k v, live'.get k = some v →
          live'.Owed k v ∨ v ∈ eventValues sent k ∨ (live.get k = some v ∧ ¬ live.Owed k v) := by
  obtain ⟨task, rfl, _⟩ | ⟨i, task, task', sent, ha, htask, _, htasks, hevents, hadvance⟩ :=
    step_cases hstep
  · refine ⟨[], (List.append_nil _).symm, fun k w hw => absurd hw List.not_mem_nil, ?_⟩
    intro k v hv
    by_cases howed : live.Owed k v
    · obtain ⟨t, ht, howes⟩ := howed
      exact Or.inl ⟨t, List.mem_append_left _ ht, howes⟩
    · exact Or.inr (Or.inr ⟨hv, howed⟩)
  · have hspec := Task.advance_spec hadvance
    have hself : task' ∈ live'.tasks := htasks ▸ Slots.mem_set_self task' htask
    have hsent : ∀ k w, w ∈ eventValues sent k ↔ (k, w) ∈ task.holding := by
      intro k w
      rw [mem_eventValues, hspec.sent]
      simp
    refine ⟨sent, hevents, fun k w hw => ⟨i, task, ha, htask, (hsent k w).mp hw⟩, ?_⟩
    intro k v hv
    by_cases hold : live.get k = some v
    · by_cases howed : live.Owed k v
      · obtain ⟨t, ht, howes⟩ := howed
        rcases Slots.mem_set_or_eq task' htask ht with ht | rfl
        · exact Or.inl ⟨t, htasks ▸ ht, howes⟩
        · rcases howes with hholds | hpending
          · exact Or.inr (Or.inl ((hsent k v).mpr hholds))
          · exact Or.inl ⟨task', hself, hspec.pending k hpending v hold⟩
      · exact Or.inr (Or.inr ⟨hold, howed⟩)
    · exact Or.inl ⟨task', hself, hspec.changed k v hv hold⟩

end LiveStore

end StateSync
