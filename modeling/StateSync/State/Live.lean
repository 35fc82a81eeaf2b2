import StateSync.Lib.Machine
import StateSync.State.Store

/-!
# The store under concurrent callers

Any number of tasks call `set` and `merge_delta` on one store. The lock makes each critical section
one step, and nothing else is atomic: the timestamp of a `set` is drawn before the lock is taken,
the event of a `set` is sent after it was released, and `merge_delta` reads each updated key back,
in a step of its own, before it sends that key's event.

`Task.advance` is what the next step of a task does, and `Advances` says once everything that can be
concluded from it.
-/

namespace StateSync

open Register

inductive SetPc
  | drawn
  | stored (winner : LwwValue)
  | returned (winner : LwwValue)
deriving DecidableEq, Repr

/-- Where a call of `merge_delta` is. The loop over `updated` has `pending` left to announce. -/
inductive MergePc
  | called
  | announcing (updated pending : List String)
  | reread (updated : List String) (key : String) (val : LwwValue) (pending : List String)
  | returned (updated : List String)
deriving DecidableEq, Repr

inductive Task
  | set (key : String) (incoming : LwwValue) (pc : SetPc)
  | merge (delta : StateDelta) (pc : MergePc)
deriving DecidableEq, Repr

namespace Task

/-- The next step of a task: the map after it, the task after it and the events it sends. A task
that has returned takes no further step. -/
def advance (state : StateMap) : Task → Option (StateMap × Task × List StateEvent)
  | .set key incoming .drawn =>
      let (state', winner) := setLocked state key incoming
      some (state', .set key incoming (.stored winner), [])
  | .set key incoming (.stored winner) =>
      some (state, .set key incoming (.returned winner), [{ key := key, value := winner }])
  | .set _ _ (.returned _) => none
  | .merge delta .called =>
      let (state', updated) := mergeLocked state delta
      some (state', .merge delta (.announcing updated updated), [])
  | .merge delta (.announcing updated []) => some (state, .merge delta (.returned updated), [])
  | .merge delta (.announcing updated (key :: pending)) =>
      match state.lookup key with
      | some val => some (state, .merge delta (.reread updated key val pending), [])
      | none => some (state, .merge delta (.announcing updated pending), [])
  | .merge delta (.reread updated key val pending) =>
      some (state, .merge delta (.announcing updated pending), [{ key := key, value := val }])
  | .merge _ (.returned _) => none

def isReturned : Task → Bool
  | .set _ _ (.returned _) => true
  | .merge _ (.returned _) => true
  | _ => false

def origin : Task → Task
  | .set key incoming _ => .set key incoming .drawn
  | .merge delta _ => .merge delta .called

def offering : Task → StateDelta
  | .set key incoming .drawn => [(key, incoming)]
  | .merge delta .called => delta
  | _ => []

def offered : Task → StateDelta
  | .set _ _ .drawn => []
  | .set key incoming _ => [(key, incoming)]
  | .merge _ .called => []
  | .merge delta _ => delta

/-- The entry the task has read from the map and not yet sent. -/
def holding : Task → StateDelta
  | .set key _ (.stored winner) => [(key, winner)]
  | .merge _ (.reread _ key val _) => [(key, val)]
  | _ => []

def pending : Task → List String
  | .merge _ (.announcing _ pending) => pending
  | .merge _ (.reread _ _ _ pending) => pending
  | _ => []

/-- Everything a step of a task does. -/
structure Advances (state state' : StateMap) (task task' : Task) (sent : List StateEvent) :
    Prop where
  origin : task'.origin = task.origin
  lookup : ∀ k, state'.lookup k
    = offers LwwValue.stamp (state.lookup k) (valuesFor task.offering k)
  offering : task'.offering = []
  offered : task'.offered = task.offered ++ task.offering
  sent : sent = task.holding.map fun entry => { key := entry.1, value := entry.2 }
  holding : ∀ entry ∈ task'.holding, state'.lookup entry.1 = some entry.2
  changed : ∀ k v, state'.lookup k = some v → state.lookup k ≠ some v →
    (k, v) ∈ task'.holding ∨ k ∈ task'.pending
  pending : ∀ k ∈ task.pending, ∀ v, state.lookup k = some v →
    (k, v) ∈ task'.holding ∨ k ∈ task'.pending

theorem Advances.of_state_eq {state : StateMap} {task task' : Task} {sent : List StateEvent}
    (horigin : task'.origin = task.origin) (hnone : task.offering = [])
    (hoffering : task'.offering = [])
    (hoffered : task'.offered = task.offered)
    (hsent : sent = task.holding.map fun entry => { key := entry.1, value := entry.2 })
    (hholding : ∀ entry ∈ task'.holding, state.lookup entry.1 = some entry.2)
    (hpending : ∀ k ∈ task.pending, ∀ v, state.lookup k = some v →
      (k, v) ∈ task'.holding ∨ k ∈ task'.pending) :
    Advances state state task task' sent where
  origin := horigin
  lookup := by
    intro k
    rw [hnone]
    rfl
  offering := hoffering
  offered := by rw [hoffered, hnone, List.append_nil]
  sent := hsent
  holding := hholding
  changed := fun k v hv hne => absurd hv hne
  pending := hpending

theorem advances_setLocked (state : StateMap) (key : String) (incoming : LwwValue) :
    Advances state (setLocked state key incoming).1 (.set key incoming .drawn)
      (.set key incoming (.stored (setLocked state key incoming).2)) [] where
  origin := rfl
  lookup := by
    intro k
    by_cases hk : key = k
    · subst hk
      rw [lookup_setLocked_self]
      simp [Task.offering, valuesFor]
    · rw [lookup_setLocked_of_ne (Ne.symm hk)]
      simp [Task.offering, valuesFor, hk]
  offering := rfl
  offered := rfl
  sent := rfl
  holding := by
    intro entry hentry
    rw [List.mem_singleton.mp hentry]
    exact (some_snd_setLocked state key incoming).symm
  changed := by
    intro k v hv hne
    have hk : k = key := by
      by_contra hk
      exact hne (by rwa [lookup_setLocked_of_ne hk] at hv)
    subst hk
    rw [← some_snd_setLocked, Option.some.injEq] at hv
    exact Or.inl (by simp [Task.holding, hv])
  pending := fun k hk => absurd hk List.not_mem_nil

theorem advances_mergeLocked (state : StateMap) (delta : StateDelta) :
    Advances state (mergeLocked state delta).1 (.merge delta .called)
      (.merge delta (.announcing (mergeLocked state delta).2 (mergeLocked state delta).2)) [] where
  origin := rfl
  lookup := lookup_mergeLocked state delta
  offering := rfl
  offered := rfl
  sent := rfl
  holding := fun entry hentry => absurd hentry List.not_mem_nil
  changed := by
    intro k v hv hne
    apply Or.inr
    by_contra hk
    exact hne (by rwa [lookup_mergeLocked_of_notMem hk] at hv)
  pending := fun k hk => absurd hk List.not_mem_nil

theorem advance_spec {state state' : StateMap} {task task' : Task} {sent : List StateEvent}
    (hadvance : task.advance state = some (state', task', sent)) :
    Advances state state' task task' sent := by
  cases task with
  | set key incoming pc =>
      cases pc with
      | drawn =>
          obtain ⟨rfl, rfl, rfl⟩ := by simpa [advance] using hadvance
          exact advances_setLocked state key incoming
      | stored winner =>
          obtain ⟨rfl, rfl, rfl⟩ := by simpa [advance] using hadvance
          exact Advances.of_state_eq rfl rfl rfl rfl rfl (by simp [holding]) (by simp [pending])
      | returned winner => simp [advance] at hadvance
  | merge delta pc =>
      cases pc with
      | called =>
          obtain ⟨rfl, rfl, rfl⟩ := by simpa [advance] using hadvance
          exact advances_mergeLocked state delta
      | announcing updated pending =>
          cases pending with
          | nil =>
              obtain ⟨rfl, rfl, rfl⟩ := by simpa [advance] using hadvance
              exact Advances.of_state_eq rfl rfl rfl rfl rfl (by simp [holding])
                (by simp [Task.pending])
          | cons key pending =>
              cases hlookup : state.lookup key with
              | some val =>
                  obtain ⟨rfl, rfl, rfl⟩ := by simpa [advance, hlookup] using hadvance
                  refine Advances.of_state_eq rfl rfl rfl rfl rfl (by simp [holding, hlookup]) ?_
                  intro k hk v hv
                  rcases List.mem_cons.mp hk with rfl | hk
                  · rw [hlookup, Option.some.injEq] at hv
                    exact Or.inl (by simp [holding, hv])
                  · exact Or.inr hk
              | none =>
                  obtain ⟨rfl, rfl, rfl⟩ := by simpa [advance, hlookup] using hadvance
                  refine Advances.of_state_eq rfl rfl rfl rfl rfl (by simp [holding]) ?_
                  intro k hk v hv
                  have hne : k ≠ key := by
                    rintro rfl
                    simp [hlookup] at hv
                  exact Or.inr ((List.mem_cons.mp hk).resolve_left hne)
      | reread updated key val pending =>
          obtain ⟨rfl, rfl, rfl⟩ := by simpa [advance] using hadvance
          exact Advances.of_state_eq rfl rfl rfl rfl rfl (by simp [holding])
            (fun k hk v _ => Or.inr hk)
      | returned updated => simp [advance] at hadvance

end Task

/-! ### The live store -/

/-- A store with the calls made on it, each at the point it has reached, and the events sent on the
broadcast channel so far. -/
structure LiveStore extends StateStore where
  tasks : List Task
  events : List StateEvent

inductive StoreAction
  | callSet (key value : String) (now : Nat)
  | callMerge (delta : StateDelta)
  | advance (task : Nat)
deriving DecidableEq, Repr

namespace LiveStore

def new (nodeId : String) : LiveStore :=
  { StateStore.new nodeId with tasks := [], events := [] }

def step (live : LiveStore) : StoreAction → Option LiveStore
  | .callSet key value now =>
      some { live with
        tasks := live.tasks ++ [.set key (LwwValue.new value live.nodeId now) .drawn] }
  | .callMerge delta => some { live with tasks := live.tasks ++ [.merge delta .called] }
  | .advance i => do
      let task ← live.tasks[i]?
      let (state, task', sent) ← task.advance live.state
      some { live with
        state := state
        tasks := live.tasks.set i task'
        events := live.events ++ sent }

def Idle (live : LiveStore) : Prop := ∀ task ∈ live.tasks, task.isReturned = true

instance (live : LiveStore) : Decidable live.Idle :=
  inferInstanceAs (Decidable (∀ task ∈ live.tasks, task.isReturned = true))

/-- Everything a step of the store can be: a call, which only adds a task at its beginning, or the
advance of one task. -/
theorem step_cases {live live' : LiveStore} {a : StoreAction} (hstep : live.step a = some live') :
    (∃ task, live' = { live with tasks := live.tasks ++ [task] }
      ∧ task.offered = [] ∧ task.holding = [] ∧ task.pending = []
      ∧ ((∃ key value now, a = .callSet key value now
            ∧ task = .set key (LwwValue.new value live.nodeId now) .drawn)
          ∨ ∃ delta, a = .callMerge delta ∧ task = .merge delta .called)) ∨
    (∃ i task task' sent, a = .advance i ∧ live.tasks[i]? = some task
      ∧ live'.nodeId = live.nodeId ∧ live'.tasks = live.tasks.set i task'
      ∧ live'.events = live.events ++ sent
      ∧ task.advance live.state = some (live'.state, task', sent)) := by
  cases a with
  | callSet key value now =>
      exact Or.inl ⟨_, (Option.some.inj hstep).symm, rfl, rfl, rfl,
        Or.inl ⟨key, value, now, rfl, rfl⟩⟩
  | callMerge delta =>
      exact Or.inl ⟨_, (Option.some.inj hstep).symm, rfl, rfl, rfl, Or.inr ⟨delta, rfl, rfl⟩⟩
  | advance i =>
      simp only [step, Option.bind_eq_bind, Option.bind_eq_some_iff] at hstep
      obtain ⟨task, htask, ⟨state, task', sent⟩, hadvance, hlive⟩ := hstep
      rw [Option.some.injEq] at hlive
      subst hlive
      exact Or.inr ⟨i, task, task', sent, rfl, htask, rfl, rfl, rfl, hadvance⟩

/-- `StateStore.set` is the three steps of a call that nobody interrupts. -/
theorem run_set_alone (live : LiveStore) (key value : String) (now : Nat) :
    ∃ task, Machine.run step live
        [.callSet key value now, .advance live.tasks.length, .advance live.tasks.length]
      = some { live with
          state := (live.set now key value).1.state
          tasks := live.tasks ++ [task]
          events := live.events ++ [(live.set now key value).2.2] } := by
  refine ⟨.set key (LwwValue.new value live.nodeId now)
    (.returned (live.set now key value).2.1), ?_⟩
  simp [Machine.run, step, Task.advance, StateStore.set]

end LiveStore

end StateSync
