import StateSync.Proof.StoreInvariant
import StateSync.State.Calls
import Mathlib.Data.Sum.Basic

/-!
# The store is linearizable

Readers and writers overlap, an update announces its events one by one after it took effect, and a
merge goes back to the map between two of them. None of that shows in what the callers get back: a
call takes effect in the one step in which it holds the lock.
-/

namespace StateSync

open Linearizable

/-- What a step of a task is to its caller. -/
theorem Task.callMoves_of_advance {nodeId : String} {state state' : StateMap} {task task' : Task}
    {sent : List StateEvent} (hadvance : task.advance state = some (state', task', sent))
    (hown : ∀ key incoming pc, task = .set key incoming pc → incoming.nodeId = nodeId) :
    CallMoves StateStore.apply { nodeId := nodeId, state := state } task.call
      { nodeId := nodeId, state := state' } task'.call := by
  cases task with
  | set key incoming pc =>
      cases pc with
      | drawn =>
          obtain ⟨rfl, rfl, rfl⟩ := by simpa [advance] using hadvance
          have hincoming : LwwValue.new incoming.value nodeId incoming.timestamp = incoming := by
            rw [← hown key incoming .drawn rfl]
            rfl
          have hcommit : CallMoves StateStore.apply { nodeId := nodeId, state := state } _ _ _ :=
            CallMoves.commit (.update (.set incoming.timestamp key incoming.value))
          simp only [StateStore.apply, StateStore.set, hincoming] at hcommit
          exact hcommit
      | stored winner =>
          obtain ⟨rfl, rfl, rfl⟩ := by simpa [advance] using hadvance
          exact CallMoves.ret _ _
      | returned winner => simp [advance] at hadvance
  | merge delta pc =>
      cases pc with
      | called =>
          obtain ⟨rfl, rfl, rfl⟩ := by simpa [advance] using hadvance
          exact CallMoves.commit _
      | announcing updated pending =>
          cases pending with
          | nil =>
              obtain ⟨rfl, rfl, rfl⟩ := by simpa [advance] using hadvance
              exact CallMoves.ret _ _
          | cons key pending =>
              -- the map is read back, which no caller sees
              cases hlookup : state.lookup key with
              | some val =>
                  obtain ⟨rfl, rfl, rfl⟩ := by simpa [advance, hlookup] using hadvance
                  exact CallMoves.stays _
              | none =>
                  obtain ⟨rfl, rfl, rfl⟩ := by simpa [advance, hlookup] using hadvance
                  exact CallMoves.stays _
      | reread updated key val pending =>
          obtain ⟨rfl, rfl, rfl⟩ := by simpa [advance] using hadvance
          exact CallMoves.stays _
      | returned updated => simp [advance] at hadvance

namespace SharedStore

variable {shared shared' : SharedStore}

/-- Everything a step of the shared store can be: a step of a writer, a reader's call, or the next
step of a reader. -/
theorem step_cases {a : SharedAction} (hstep : shared.step a = some shared') :
    (∃ a live, shared.live.step a = some live ∧ shared' = { shared with live := live })
      ∨ (∃ query, shared' = { shared with
          readings := shared.readings ++ [{ query := query, pc := .called }] })
      ∨ ∃ i reading reading', shared.readings[i]? = some reading
          ∧ shared' = { shared with readings := shared.readings.set i reading' }
          ∧ CallMoves StateStore.apply shared.live.toStateStore reading.call
              shared.live.toStateStore reading'.call := by
  cases a with
  | store a =>
      obtain ⟨live, hlive, rfl⟩ := Option.map_eq_some_iff.mp hstep
      exact Or.inl ⟨a, live, hlive, rfl⟩
  | callQuery query => exact Or.inr (Or.inl ⟨query, (Option.some.inj hstep).symm⟩)
  | read i =>
      obtain ⟨⟨query, pc⟩, hreading, hstep⟩ := Option.bind_eq_some_iff.mp hstep
      cases pc with
      | called =>
          refine Or.inr (Or.inr ⟨i, _, _, hreading, (Option.some.inj hstep).symm, ?_⟩)
          exact CallMoves.commit (Operation.query query)
      | read answer => simp at hstep
      | returned answer => simp at hstep
  | returnAnswer i =>
      obtain ⟨⟨query, pc⟩, hreading, hstep⟩ := Option.bind_eq_some_iff.mp hstep
      cases pc with
      | called => simp at hstep
      | read answer =>
          refine Or.inr (Or.inr ⟨i, _, _, hreading, (Option.some.inj hstep).symm, ?_⟩)
          exact CallMoves.ret (Operation.query query) answer
      | returned answer => simp at hstep

/-- Every entry that `set` is called with is stamped with the node id of the store. -/
def Stamped (shared : SharedStore) : Prop :=
  ∀ key incoming pc, Task.set key incoming pc ∈ shared.live.tasks →
    incoming.nodeId = shared.live.nodeId

theorem stamped_new (nodeId : String) : (SharedStore.new nodeId).Stamped := by
  intro key incoming pc htask
  simp [SharedStore.new, LiveStore.new] at htask

theorem Stamped.step (h : shared.Stamped) {a : SharedAction}
    (hstep : shared.step a = some shared') : shared'.Stamped := by
  obtain ⟨a, live, hlive, rfl⟩ | ⟨query, rfl⟩ | ⟨i, reading, reading', _, rfl, _⟩ :=
    step_cases hstep
  · intro key incoming pc htask
    rw [LiveStore.step_nodeId hlive]
    obtain ⟨old, hold, horigin⟩ | ⟨_, _, _, _, horigin⟩ | ⟨_, _, horigin⟩ :=
      LiveStore.mem_tasks_step hlive htask
    · cases old with
      | set key' incoming' pc' =>
          obtain ⟨rfl, rfl⟩ := by simpa [Task.origin] using horigin
          exact h key incoming pc' hold
      | merge delta pc' => simp [Task.origin] at horigin
    · obtain ⟨rfl, rfl⟩ := by simpa [Task.origin] using horigin
      rfl
    · simp [Task.origin] at horigin
  · exact h
  · exact h

theorem calls_eq (shared : SharedStore) : shared.calls
    = Sum.elim (fun i => shared.live.tasks[i]?.map Task.call)
        (fun i => shared.readings[i]?.map Reading.call) := by
  funext k
  cases k with
  | inl i => rfl
  | inr i => rfl

theorem calls_new (nodeId : String) (k : ℕ ⊕ ℕ) : (SharedStore.new nodeId).calls k = none := by
  cases k with
  | inl i => rfl
  | inr i => rfl

theorem calls_concat_task {live : LiveStore} {task : Task}
    (htasks : live.tasks = shared.live.tasks ++ [task]) : { shared with live := live }.calls
      = Function.update shared.calls (.inl shared.live.tasks.length) (some task.call) := by
  rw [calls_eq, calls_eq, Sum.update_elim_inl, ← Slots.map_getElem?_concat, htasks]

theorem calls_set_task {live : LiveStore} {i : Nat} {task task' : Task}
    (htask : shared.live.tasks[i]? = some task)
    (htasks : live.tasks = shared.live.tasks.set i task') : { shared with live := live }.calls
      = Function.update shared.calls (.inl i) (some task'.call) := by
  rw [calls_eq, calls_eq, Sum.update_elim_inl, ← Slots.map_getElem?_set Task.call htask, htasks]

theorem calls_concat_reading (reading : Reading) :
    { shared with readings := shared.readings ++ [reading] }.calls
      = Function.update shared.calls (.inr shared.readings.length) (some reading.call) := by
  rw [calls_eq, calls_eq, Sum.update_elim_inr, ← Slots.map_getElem?_concat]

theorem calls_set_reading {i : Nat} {reading : Reading}
    (hreading : shared.readings[i]? = some reading) (reading' : Reading) :
    { shared with readings := shared.readings.set i reading' }.calls
      = Function.update shared.calls (.inr i) (some reading'.call) := by
  rw [calls_eq, calls_eq, Sum.update_elim_inr, ← Slots.map_getElem?_set Reading.call hreading]

theorem moves_of_step (h : shared.Stamped) {a : SharedAction}
    (hstep : shared.step a = some shared') :
    Moves StateStore.apply shared.live.toStateStore shared.calls shared'.live.toStateStore
      shared'.calls := by
  obtain ⟨a, live, hlive, rfl⟩ | ⟨query, rfl⟩ | ⟨i, reading, reading', hreading, rfl, hmoves⟩ :=
    step_cases hstep
  · obtain ⟨task, rfl, _, _, _, hcall⟩ | ⟨i, task, task', sent, _, htask, hid, htasks, _, hadvance⟩
      := LiveStore.step_cases hlive
    · have hpending : task.call = { op := task.call.op, phase := .pending } := by
        obtain ⟨key, value, now, _, rfl⟩ | ⟨delta, _, rfl⟩ := hcall
        · rfl
        · rfl
      have htasks : { shared.live with tasks := shared.live.tasks ++ [task] }.tasks
          = shared.live.tasks ++ [task] := rfl
      rw [calls_concat_task htasks, hpending]
      exact Moves.call (by simp [calls])
    · rw [calls_set_task htask htasks]
      have hown : ∀ key incoming pc, task = .set key incoming pc →
          incoming.nodeId = shared.live.nodeId := by
        rintro key incoming pc rfl
        exact h key incoming pc (List.mem_of_getElem? htask)
      have hmoves := Task.callMoves_of_advance hadvance hown
      have hstore : live.toStateStore = { nodeId := shared.live.nodeId, state := live.state } := by
        rw [← hid]
      rw [hstore]
      exact hmoves.moves (by simp [calls, htask])
  · rw [calls_concat_reading]
    exact Moves.call (by simp [calls])
  · rw [calls_set_reading hreading]
    exact hmoves.moves (by simp [calls, hreading])

/-- **The store implements its sequential operations.** -/
theorem implements : Implements SharedStore.step StateStore.apply SharedStore.Stamped
    (fun shared => shared.live.toStateStore) SharedStore.calls where
  invariant := fun _ _ _ h hstep => h.step hstep
  moves := fun _ _ _ h hstep => moves_of_step h hstep

/-- **The store is linearizable.** In every run there is one order of the calls that have taken
effect, which contains each call that has returned, respects real time, and in which the calls,
carried out one after the other from an empty store, give the results they gave and leave the map
as it is. -/
theorem exists_linearization {nodeId : String} {as : List SharedAction} {final : SharedStore}
    (hrun : Machine.run SharedStore.step (SharedStore.new nodeId) as = some final) :
    ∃ order, Linearization StateStore.apply (StateStore.new nodeId) final.live.toStateStore
        final.calls order
      ∧ RealTime SharedStore.step SharedStore.calls (SharedStore.new nodeId) as order :=
  implements.linearizable (stamped_new nodeId) (calls_new nodeId) hrun

theorem exists_linearization_overlapping :
    ∃ final, Machine.run SharedStore.step (SharedStore.new "node-a")
        [.store (.callSet "k" "a" 1), .callQuery (.get "k"), .store (.advance 0), .read 0,
          .returnAnswer 0, .store (.advance 0)] = some final
      ∧ ∃ order, Linearization StateStore.apply (StateStore.new "node-a")
          final.live.toStateStore final.calls order
        ∧ RealTime SharedStore.step SharedStore.calls (SharedStore.new "node-a")
          [.store (.callSet "k" "a" 1), .callQuery (.get "k"), .store (.advance 0), .read 0,
            .returnAnswer 0, .store (.advance 0)] order := by
  have hrun : (Machine.run SharedStore.step (SharedStore.new "node-a")
      [.store (.callSet "k" "a" 1), .callQuery (.get "k"), .store (.advance 0), .read 0,
        .returnAnswer 0, .store (.advance 0)]).any (fun _ => true) = true := by decide
  obtain ⟨final, hfinal, _⟩ := Machine.exists_of_any_run hrun
  exact ⟨final, hfinal, exists_linearization hfinal⟩

end SharedStore

end StateSync
