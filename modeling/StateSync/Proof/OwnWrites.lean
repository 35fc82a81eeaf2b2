import StateSync.Proof.Clocks
import StateSync.Proof.Watermark

/-!
# A node's own writes and its watermarks

A `set` draws its timestamp before it takes the lock. A push that is built and acknowledged in
between can raise the watermark to that timestamp or above it, and `delta_since` then leaves the
write out for good. When the value is stored in time, the watermark never passes a local write that
the peer has not received.
-/

namespace StateSync

open Register

def Task.writing : Task → StateDelta
  | .set key incoming .drawn => [(key, incoming)]
  | _ => []

/-- The task is a `set` that stored its own value, or found it stored. -/
def Task.Wrote (k : String) (v : LwwValue) (task : Task) : Prop :=
  task = .set k v (.stored v) ∨ task = .set k v (.returned v)

theorem Task.Wrote.origin {k : String} {v : LwwValue} {task : Task} (h : task.Wrote k v) :
    task.origin = .set k v .drawn := by
  obtain rfl | rfl := h <;> rfl

theorem Task.Wrote.offered {k : String} {v : LwwValue} {task : Task} (h : task.Wrote k v) :
    (k, v) ∈ task.offered := by
  obtain rfl | rfl := h <;> exact List.mem_cons_self

theorem Task.wrote_advance {state state' : StateMap} {task task' : Task} {sent : List StateEvent}
    (hadvance : task.advance state = some (state', task', sent)) {k : String} {v : LwwValue}
    (h : task'.Wrote k v) :
    task.Wrote k v ∨ (k, v) ∈ task.writing ∧ offer LwwValue.stamp (state.lookup k) v = some v := by
  cases task with
  | set key incoming pc =>
      cases pc with
      | drawn =>
          obtain ⟨rfl, rfl, rfl⟩ := by simpa [advance] using hadvance
          obtain ⟨rfl, rfl, hwinner⟩ : key = k ∧ incoming = v
              ∧ (setLocked state key incoming).2 = v := by
            simpa [Wrote] using h
          refine Or.inr ⟨List.mem_cons_self, ?_⟩
          rw [← lookup_setLocked_self, ← some_snd_setLocked, hwinner]
      | stored winner =>
          obtain ⟨rfl, rfl, rfl⟩ := by simpa [advance] using hadvance
          obtain ⟨rfl, rfl, rfl⟩ : key = k ∧ incoming = v ∧ winner = v := by
            simpa [Wrote] using h
          exact Or.inl (Or.inl rfl)
      | returned winner => simp [advance] at hadvance
  | merge delta pc =>
      have horigin := (advance_spec hadvance).origin
      rw [h.origin] at horigin
      simp [Task.origin] at horigin

theorem LiveStore.wrote_step {live live' : LiveStore} {sa : StoreAction}
    (hstep : live.step sa = some live') {task' : Task} (htask' : task' ∈ live'.tasks) {k : String}
    {v : LwwValue} (h : task'.Wrote k v) :
    (∃ task ∈ live.tasks, task.Wrote k v) ∨ ∃ i task, sa = .advance i
      ∧ live.tasks[i]? = some task ∧ (k, v) ∈ task.writing
      ∧ offer LwwValue.stamp (live.get k) v = some v := by
  obtain ⟨t, rfl, hoffered, _⟩ | ⟨i, t, t', sent, ha, ht, _, htasks, _, hadvance⟩ :=
    step_cases hstep
  · obtain hold | hnew := List.mem_append.mp htask'
    · exact Or.inl ⟨task', hold, h⟩
    · -- a call that begins now has offered nothing yet
      rw [List.mem_singleton.mp hnew] at h
      exact absurd h.offered (by simp [hoffered])
  · rw [htasks] at htask'
    obtain hold | rfl := List.mem_or_eq_of_mem_set htask'
    · exact Or.inl ⟨task', hold, h⟩
    · obtain hold | ⟨hwriting, hoffer⟩ := Task.wrote_advance hadvance h
      · exact Or.inl ⟨t, List.mem_of_getElem? ht, hold⟩
      · exact Or.inr ⟨i, t, ha, ht, hwriting, hoffer⟩

namespace Cluster

variable {ι : Type}

def WrittenBy (c : Cluster ι) (n : ι) (k : String) (v : LwwValue) : Prop :=
  ∃ task ∈ (c.nodes n).live.tasks, task.Wrote k v

/-- **Watermark soundness for own writes.** No watermark `A` keeps for `B` has passed a local write
that `B` has not received. -/
def OwnWritesSound (net : Network ι) (A B : ι) (c : Cluster ι) : Prop :=
  ∀ p info, (c.nodes A).peers.lookup p = some info → net.resolve info.gossipAddr = some B →
    ∀ k v, c.get A k = some v → c.WrittenBy A k v → v.timestamp ≤ info.lastSyncTs →
      c.Dominates B k v

/-- When the locked step of a `set` on `A` leaves its value in the map, the value is in time. -/
def OwnWritesTimely [DecidableEq ι] (net : Network ι) (A B : ι) (c : Cluster ι) : Action ι → Prop
  | .advance n i => n = A → A ≠ B → ∀ task ∈ (c.nodes A).live.tasks[i]?, ∀ entry ∈ task.writing,
      offer LwwValue.stamp (c.get A entry.1) entry.2 = some entry.2 →
        Timely net A B (fun _ => True) c entry.1 entry.2
  | _ => True

instance [DecidableEq ι] (net : Network ι) (A B : ι) (c : Cluster ι) :
    ∀ a, Decidable (OwnWritesTimely net A B c a)
  | .advance n i => inferInstanceAs (Decidable (n = A → A ≠ B →
      ∀ task ∈ (c.nodes A).live.tasks[i]?, ∀ entry ∈ task.writing,
        offer LwwValue.stamp (c.get A entry.1) entry.2 = some entry.2 →
          Timely net A B (fun _ => True) c entry.1 entry.2))
  | .callSet _ _ _ _ | .beginRound _ | .scanPeer _ _ | .startRound _ _ | .sendNext _ _ | .accept _
  | .register _ | .writeAck _ | .recvAck _ | .failSend _ | .lose _ | .restart _ => isTrue trivial

/-- The timestamp of a `set` is drawn, then another `set` is stored, pushed and acknowledged, and
only then does the first one take the lock. -/
def overtakenWrite : List (Action Bool) :=
  [.callSet false "late" "x" 4] ++ Action.setAlone false "k" "y" 5 1
    ++ Action.roundAlone false [("10.0.0.2:7071", PeerInfo.new "10.0.0.2:7071")]
      [("k", ⟨"y", 5, "node-a"⟩)] 0 true 0 4
    ++ [.advance false 0]

theorem ownWrites_overtaken :
    (∀ n, Action.restart n ∉ overtakenWrite) ∧ (∀ now ∈ readings false overtakenWrite, 0 < now)
      ∧ (readings false overtakenWrite).Pairwise (· ≤ ·)
      ∧ ∃ c, Machine.run (step twoNodes) (init twoNodes) overtakenWrite = some c
        ∧ ¬ OwnWritesSound twoNodes false true c := by
  refine ⟨by decide, by decide, by decide, ?_⟩
  have hrun : (Machine.run (step twoNodes) (init twoNodes) overtakenWrite).any (fun c => decide
      ((c.nodes false).peers.lookup "10.0.0.2:7071" = some ⟨"10.0.0.2:7071", 5, 1⟩
        ∧ c.get false "late" = some ⟨"x", 4, "node-a"⟩
        ∧ (c.nodes false).live.tasks[0]?
          = some (.set "late" ⟨"x", 4, "node-a"⟩ (.stored ⟨"x", 4, "node-a"⟩))
        ∧ ¬ (c.nodes true).live.state.Dominates "late" ⟨"x", 4, "node-a"⟩)) := by
    decide +kernel
  obtain ⟨c, hrun, hfacts⟩ := Machine.exists_of_any_run hrun
  obtain ⟨hinfo, hget, htask, hnot⟩ := of_decide_eq_true hfacts
  refine ⟨c, hrun, fun hsound => hnot ?_⟩
  exact hsound _ _ hinfo rfl _ _ hget ⟨_, List.mem_of_getElem? htask, Or.inl rfl⟩ (by decide)

variable {net : Network ι} {A B : ι} {c c' : Cluster ι}

theorem WrittenBy.step [DecidableEq ι] (hwf : WellFormed net c) {a : Action ι}
    (hsteps : Steps net c a c') (hA : a ≠ .restart A) {k : String} {v : LwwValue}
    (hget : c'.get A k = some v) (h : c'.WrittenBy A k v) :
    (c.get A k = some v ∧ c.WrittenBy A k v) ∨ ∃ i task, a = .advance A i
      ∧ (c.nodes A).live.tasks[i]? = some task ∧ (k, v) ∈ task.writing
      ∧ offer LwwValue.stamp (c.get A k) v = some v := by
  -- a store never returns to an entry it has left
  have hheld (hwritten : c.WrittenBy A k v) : c.get A k = some v := by
    obtain ⟨task, htask, hwrote⟩ := hwritten
    have hbehind := hsteps.behind hA k
    rw [hget] at hbehind
    exact hbehind.eq_of_stamp_le ((hwf.consistent A).offered task htask k v hwrote.offered)
  obtain ⟨task', htask', hwrote⟩ := h
  obtain hlive | ⟨sa, hlive, hact⟩ := (hsteps.node A).live hA
  · rw [hlive] at htask'
    exact Or.inl ⟨hheld ⟨task', htask', hwrote⟩, task', htask', hwrote⟩
  · obtain hwritten | ⟨i, task, rfl, htask, hwriting, hoffer⟩ :=
      LiveStore.wrote_step hlive htask' hwrote
    · exact Or.inl ⟨hheld hwritten, hwritten⟩
    · obtain hact | ⟨x, ex, _, _, heq⟩ := hact
      · exact Or.inr ⟨i, task, Action.eq_advance hact, htask, hwriting, hoffer⟩
      · simp at heq

def HoldsOwn (A : ι) (c : Cluster ι) (k : String) (v : LwwValue) : Prop :=
  HoldsAbove A 0 c k v ∧ c.WrittenBy A k v

structure OwnWritesSafe (net : Network ι) (A B : ι) (c : Cluster ι) : Prop where
  wellFormed : WellFormed net c
  safe : Safe net A B (fun _ => True) 0 (HoldsOwn A) c

theorem ownWritesSafe_init (net : Network ι) (A B : ι) : OwnWritesSafe net A B (init net) where
  wellFormed := wellFormed_init net
  safe := safe_init fun _ _ ⟨_, _, htask, _⟩ => absurd htask List.not_mem_nil

theorem OwnWritesSafe.step [DecidableEq ι] (h : OwnWritesSafe net A B c) {a : Action ι}
    (hstep : c.step net a = some c') (hA : a ≠ .restart A) (hB : a ≠ .restart B)
    (htimely : OwnWritesTimely net A B c a) : OwnWritesSafe net A B c' := by
  have hsteps := step_spec hstep
  refine ⟨h.wellFormed.step hstep, h.safe.step h.wellFormed hsteps hA hB (fun k v hv => hv.1) ?_⟩
  rintro hAB k v ⟨⟨hget, hpos⟩, hwritten⟩
  obtain ⟨hold, hwritten⟩ | ⟨i, task, rfl, htask, hwriting, hoffer⟩ :=
    hwritten.step h.wellFormed hsteps hA hget
  · exact Or.inl ⟨⟨hold, hpos⟩, hwritten⟩
  · exact Or.inr (htimely rfl hAB task htask (k, v) hwriting hoffer)

/-- **The watermark never passes a local write in time.** In every run in which each local write of
`A` is stored in time, no watermark `A` keeps for `B` passes a local write that `B` has not
received. -/
theorem ownWrites_sound [DecidableEq ι] {as : List (Action ι)} (hA : Action.restart A ∉ as)
    (hB : Action.restart B ∉ as) (hclock : ∀ now ∈ readings A as, 0 < now)
    (htimely : Machine.Guarded (step net) (OwnWritesTimely net A B) (init net) as)
    (hrun : Machine.run (step net) (init net) as = some c) : OwnWritesSound net A B c := by
  have hsafe : OwnWritesSafe net A B c := by
    refine Machine.run_invariant_of_guarded ?_ (ownWritesSafe_init net A B)
      ((guarded_stable_pair hA hB _).and htimely) hrun
    rintro s a t h ⟨⟨hA, hB⟩, htimely⟩ hstep
    exact h.step hstep hA hB htimely
  intro p info hinfo hresolve k v hget hwritten hle
  have hpos : 0 < v.timestamp := by
    obtain ⟨task, htask, hwrote⟩ := hwritten
    exact hclock _ (mem_readings (run_callSet hrun htask hwrote.origin))
  have hcovered := hsafe.safe.covered k v ⟨⟨hget, hpos⟩, hwritten⟩
  exact hcovered.watermark p info trivial hinfo hresolve hle

theorem ownWrites_sound_in_time :
    ∃ c, Machine.run (step twoNodes) (init twoNodes)
          (ackedWrite ++ Action.setAlone false "next" "z" 6 1) = some c
      ∧ OwnWritesSound twoNodes false true c := by
  have hrun : (Machine.run (step twoNodes) (init twoNodes)
      (ackedWrite ++ Action.setAlone false "next" "z" 6 1)).any fun _ => true := by
    decide +kernel
  obtain ⟨c, hrun, _⟩ := Machine.exists_of_any_run hrun
  exact ⟨c, hrun, ownWrites_sound (by decide) (by decide) (by decide) (by decide +kernel) hrun⟩

end Cluster

end StateSync
