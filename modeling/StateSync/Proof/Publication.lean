import StateSync.Proof.Merges
import StateSync.Proof.StoreInvariant

/-!
# Every update is published once

What the channel carries is an interleaving of what the calls announce: a `set` its winner, a merge
one event for each key it updated, in the order in which it updated them. The second look a merge
takes at the map finds every key, since none is ever removed, so no update goes without its event;
and it finds nothing older than what the merge brought.
-/

namespace StateSync

open Register

/-- None of the events is older than what the delta has for its key. -/
def Current (delta : StateDelta) (sent : List StateEvent) : Prop :=
  ∀ e ∈ sent, ∀ v, (e.key, v) ∈ delta → v.stamp ≤ e.value.stamp

theorem Current.concat {delta : StateDelta} {sent : List StateEvent} (h : Current delta sent)
    {e : StateEvent} (he : ∀ v, (e.key, v) ∈ delta → v.stamp ≤ e.value.stamp) :
    Current delta (sent ++ [e]) := by
  intro e' he'
  obtain he' | he' := List.mem_append.mp he'
  · exact h e' he'
  · obtain rfl := List.mem_singleton.mp he'
    exact he

/-- What a task has sent by the time it has come this far. -/
def Task.Published : Task → List StateEvent → Prop
  | .set key _ (.returned winner), sent => sent = [{ key := key, value := winner }]
  | .set _ _ _, sent => sent = []
  | .merge _ .called, sent => sent = []
  | .merge delta (.announcing updated pending), sent =>
      sent.map StateEvent.key ++ pending = updated ∧ Current delta sent
  | .merge delta (.reread updated key val pending), sent =>
      sent.map StateEvent.key ++ key :: pending = updated
        ∧ Current delta (sent ++ [{ key := key, value := val }])
  | .merge delta (.returned updated), sent =>
      sent.map StateEvent.key = updated ∧ Current delta sent

namespace Task

variable {state state' : StateMap} {task task' : Task} {sent new : List StateEvent}

theorem Published.advance (h : task.Published sent)
    (hadvance : task.advance state = some (state', task', new))
    (hoffered : ∀ k v, (k, v) ∈ task.offered → state.Dominates k v)
    (hpending : ∀ k ∈ task.pending, ∃ v, state.lookup k = some v) :
    task'.Published (sent ++ new) := by
  cases task with
  | set key incoming pc =>
      cases pc with
      | drawn =>
          obtain ⟨rfl, rfl, rfl⟩ := by simpa [Task.advance] using hadvance
          rw [List.append_nil]
          exact h
      | stored winner =>
          obtain ⟨rfl, rfl, rfl⟩ := by simpa [Task.advance] using hadvance
          obtain rfl : sent = [] := h
          rfl
      | returned winner => simp [Task.advance] at hadvance
  | merge delta pc =>
      cases pc with
      | called =>
          obtain ⟨rfl, rfl, rfl⟩ := by simpa [Task.advance] using hadvance
          obtain rfl : sent = [] := h
          exact ⟨rfl, fun e he => absurd he List.not_mem_nil⟩
      | announcing updated pending =>
          obtain ⟨hkeys, hcurrent⟩ := h
          cases pending with
          | nil =>
              obtain ⟨rfl, rfl, rfl⟩ := by simpa [Task.advance] using hadvance
              rw [List.append_nil] at hkeys ⊢
              exact ⟨hkeys, hcurrent⟩
          | cons key pending =>
              obtain ⟨val, hval⟩ := hpending key List.mem_cons_self
              obtain ⟨rfl, rfl, rfl⟩ := by simpa [Task.advance, hval] using hadvance
              rw [List.append_nil]
              refine ⟨hkeys, hcurrent.concat ?_⟩
              -- what the map held when the key was read back dominates the delta
              intro v hv
              have hle := hoffered key v hv
              unfold StateMap.Dominates StateMap.stampAt at hle
              rw [hval, stampOf_some, WithBot.coe_le_coe] at hle
              exact hle
      | reread updated key val pending =>
          obtain ⟨rfl, rfl, rfl⟩ := by simpa [Task.advance] using hadvance
          obtain ⟨hkeys, hcurrent⟩ := h
          refine ⟨?_, hcurrent⟩
          rw [List.map_append, List.append_assoc]
          exact hkeys
      | returned updated => simp [Task.advance] at hadvance

theorem pending_advance (hadvance : task.advance state = some (state', task', new)) {k : String}
    (hk : k ∈ task'.pending) : k ∈ task.pending ∨ ∃ v, state'.lookup k = some v := by
  cases task with
  | set key incoming pc =>
      cases pc with
      | drawn =>
          obtain ⟨rfl, rfl, rfl⟩ := by simpa [Task.advance] using hadvance
          exact absurd hk List.not_mem_nil
      | stored winner =>
          obtain ⟨rfl, rfl, rfl⟩ := by simpa [Task.advance] using hadvance
          exact absurd hk List.not_mem_nil
      | returned winner => simp [Task.advance] at hadvance
  | merge delta pc =>
      cases pc with
      | called =>
          obtain ⟨rfl, rfl, rfl⟩ := by simpa [Task.advance] using hadvance
          exact Or.inr (exists_lookup_of_mem hk)
      | announcing updated pending =>
          cases pending with
          | nil =>
              obtain ⟨rfl, rfl, rfl⟩ := by simpa [Task.advance] using hadvance
              exact absurd hk List.not_mem_nil
          | cons key pending =>
              have hsub : task'.pending = pending := by
                cases hlookup : state.lookup key with
                | some val =>
                    obtain ⟨rfl, rfl, rfl⟩ := by simpa [Task.advance, hlookup] using hadvance
                    rfl
                | none =>
                    obtain ⟨rfl, rfl, rfl⟩ := by simpa [Task.advance, hlookup] using hadvance
                    rfl
              rw [hsub] at hk
              exact Or.inl (List.mem_cons_of_mem key hk)
      | reread updated key val pending =>
          obtain ⟨rfl, rfl, rfl⟩ := by simpa [Task.advance] using hadvance
          exact Or.inl hk
      | returned updated => simp [Task.advance] at hadvance

end Task

/-- The events of one task, in the order in which they were sent. -/
def sentBy (i : Nat) (log : List (Nat × StateEvent)) : List StateEvent :=
  (log.filter fun entry => entry.1 = i).map Prod.snd

theorem sentBy_append (i : Nat) (log log' : List (Nat × StateEvent)) :
    sentBy i (log ++ log') = sentBy i log ++ sentBy i log' := by
  simp [sentBy]

theorem sentBy_self (i : Nat) (sent : List StateEvent) :
    sentBy i (sent.map (Prod.mk i)) = sent := by
  simp [sentBy, List.filter_map, Function.comp_def]

theorem sentBy_of_ne {i j : Nat} (hne : i ≠ j) (sent : List StateEvent) :
    sentBy i (sent.map (Prod.mk j)) = [] := by
  simp [sentBy, List.filter_map, Function.comp_def, Ne.symm hne]

namespace LiveStore

variable {live live' : LiveStore} {log : List (Nat × StateEvent)}

/-- The log is what the tasks have sent, and who sent what. -/
structure Logged (log : List (Nat × StateEvent)) (live : LiveStore) : Prop where
  consistent : live.Consistent
  pending : ∀ task ∈ live.tasks, ∀ k ∈ task.pending, ∃ v, live.get k = some v
  events : log.map Prod.snd = live.events
  senders : ∀ entry ∈ log, entry.1 < live.tasks.length
  published : ∀ (i : Nat) (task : Task), live.tasks[i]? = some task → task.Published (sentBy i log)

theorem logged_new (nodeId : String) : Logged [] (LiveStore.new nodeId) where
  consistent := consistent_of_tasks_nil rfl rfl
  pending := by simp [LiveStore.new]
  events := rfl
  senders := by simp
  published := by simp [LiveStore.new]

theorem exists_get_step {a : StoreAction} (hstep : live.step a = some live') {k : String}
    (h : ∃ v, live.get k = some v) : ∃ v, live'.get k = some v := by
  obtain ⟨v, hv⟩ := h
  have hbehind := step_behind hstep k
  cases hget : live'.get k with
  | none =>
      rw [hget, hv] at hbehind
      exact absurd hbehind.eq_none (by simp)
  | some w => exact ⟨w, rfl⟩

theorem Logged.step (h : Logged log live) {a : StoreAction} (hstep : live.step a = some live') :
    ∃ new, Logged (log ++ new) live' := by
  have hkept : ∀ k, (∃ v, live.get k = some v) → ∃ v, live'.get k = some v :=
    fun k => exists_get_step hstep
  have hconsistent := h.consistent.step hstep
  obtain ⟨task, rfl, _, _, hpending, hcall⟩ | ⟨i, task, task', sent, _, htask, _, htasks, hevents,
    hadvance⟩ := step_cases hstep
  · refine ⟨[], ?_⟩
    rw [List.append_nil]
    refine ⟨hconsistent, ?_, h.events, ?_, ?_⟩
    · intro t ht k hk
      obtain ht | ht := List.mem_append.mp ht
      · exact h.pending t ht k hk
      · rw [List.mem_singleton.mp ht, hpending] at hk
        exact absurd hk List.not_mem_nil
    · intro entry hentry
      rw [List.length_append]
      exact Nat.lt_add_right _ (h.senders entry hentry)
    · intro j t ht
      obtain ht | ⟨rfl, rfl⟩ := Slots.getElem?_concat_cases ht
      · exact h.published j t ht
      · -- nobody has sent anything in the name of a task that is only now called
        have hnone : sentBy live.tasks.length log = [] := by
          simp only [sentBy, List.map_eq_nil_iff, List.filter_eq_nil_iff, decide_eq_true_eq]
          intro entry hentry
          exact (h.senders entry hentry).ne
        rw [hnone]
        obtain ⟨key, value, now, _, rfl⟩ | ⟨delta, _, rfl⟩ := hcall
        · rfl
        · rfl
  · have hmem : task ∈ live.tasks := List.mem_of_getElem? htask
    obtain ⟨hlt, _⟩ := List.getElem?_eq_some_iff.mp htask
    refine ⟨sent.map (Prod.mk i), hconsistent, ?_, ?_, ?_, ?_⟩
    · intro t ht k hk
      rw [htasks] at ht
      obtain ht | rfl := List.mem_or_eq_of_mem_set ht
      · exact hkept k (h.pending t ht k hk)
      · obtain hk | hk := Task.pending_advance hadvance hk
        · exact hkept k (h.pending task hmem k hk)
        · exact hk
    · rw [List.map_append, h.events, hevents, List.map_map]
      simp [Function.comp_def]
    · intro entry hentry
      rw [htasks, List.length_set]
      obtain hentry | hentry := List.mem_append.mp hentry
      · exact h.senders entry hentry
      · obtain ⟨e, _, rfl⟩ := List.mem_map.mp hentry
        exact hlt
    · intro j t ht
      rw [sentBy_append]
      rw [htasks] at ht
      by_cases hj : j = i
      · subst hj
        rw [List.getElem?_set_self hlt, Option.some.injEq] at ht
        subst ht
        rw [sentBy_self]
        exact (h.published j task htask).advance hadvance (h.consistent.offered task hmem)
          (h.pending task hmem)
      · rw [List.getElem?_set_ne (Ne.symm hj)] at ht
        rw [sentBy_of_ne hj, List.append_nil]
        exact h.published j t ht

/-- **Every update is published once.** In every run the events on the channel are an interleaving
of what the calls made so far have sent: a `set` that has returned has sent its winner and nothing
else, a merge that has returned has sent one event for each key it reports, in that order and none
of them older than what it was given for the key, and a call that has not come as far has sent the
beginning of that. -/
theorem exists_log {nodeId : String} {as : List StoreAction} {final : LiveStore}
    (hrun : Machine.run LiveStore.step (LiveStore.new nodeId) as = some final) :
    ∃ log : List (Nat × StateEvent), log.map Prod.snd = final.events
      ∧ (∀ entry ∈ log, entry.1 < final.tasks.length)
      ∧ ∀ (i : Nat) (task : Task), final.tasks[i]? = some task → task.Published (sentBy i log) := by
  have hlogged : ∃ log, Logged log final := by
    refine Machine.run_invariant (P := fun live => ∃ log, Logged log live) ?_
      ⟨[], logged_new nodeId⟩ hrun
    rintro live a live' ⟨log, h⟩ hstep
    obtain ⟨new, h⟩ := h.step hstep
    exact ⟨log ++ new, h⟩
  obtain ⟨log, h⟩ := hlogged
  exact ⟨log, h.events, h.senders, h.published⟩

theorem exists_log_two_writers :
    ∃ final, Machine.run LiveStore.step (LiveStore.new "node-a")
        [.callSet "k" "a" 1, .callMerge [("k", ⟨"b", 2, "node-b"⟩), ("m", ⟨"c", 1, "node-b"⟩)],
          .advance 1, .advance 0, .advance 1, .advance 0, .advance 1, .advance 1, .advance 1,
          .advance 1] = some final
      ∧ ∃ log : List (Nat × StateEvent), log.map Prod.snd = final.events
        ∧ (∀ entry ∈ log, entry.1 < final.tasks.length)
        ∧ ∀ (i : Nat) (task : Task), final.tasks[i]? = some task →
            task.Published (sentBy i log) := by
  have hrun : (Machine.run LiveStore.step (LiveStore.new "node-a")
      [.callSet "k" "a" 1, .callMerge [("k", ⟨"b", 2, "node-b"⟩), ("m", ⟨"c", 1, "node-b"⟩)],
        .advance 1, .advance 0, .advance 1, .advance 0, .advance 1, .advance 1, .advance 1,
        .advance 1]).any (fun _ => true) = true := by decide
  obtain ⟨final, hfinal, _⟩ := Machine.exists_of_any_run hrun
  exact ⟨final, hfinal, exists_log hfinal⟩

end LiveStore

end StateSync
