import StateSync.Proof.ClusterInvariant
import StateSync.Proof.Origin

/-!
# Clock readings

Which readings a run drew, and what follows from them for the entries in the cluster: a `set`
carries the reading its call drew, and when all readings are positive so is every timestamp,
wherever it is found.
-/

namespace StateSync

namespace Cluster

variable {ι : Type} [DecidableEq ι] {net : Network ι} {c c' : Cluster ι}

def readings (n : ι) (as : List (Action ι)) : List Nat :=
  as.filterMap fun
    | .callSet m _ _ now => if m = n then some now else none
    | _ => none

theorem mem_readings {n : ι} {as : List (Action ι)} {key value : String} {now : Nat}
    (h : .callSet n key value now ∈ as) : now ∈ readings n as :=
  List.mem_filterMap.mpr ⟨_, h, if_pos rfl⟩

/-- A `set` task was called with its key, value and timestamp. -/
theorem run_callSet {as : List (Action ι)} (hrun : Machine.run (step net) (init net) as = some c)
    {n : ι} {task : Task} (htask : task ∈ (c.nodes n).live.tasks) {k : String} {v : LwwValue}
    (horigin : task.origin = .set k v .drawn) : .callSet n k v.value v.timestamp ∈ as := by
  refine Machine.run_induction (P := fun as c => ∀ n, ∀ task ∈ (c.nodes n).live.tasks, ∀ k v,
    task.origin = .set k v .drawn → .callSet n k v.value v.timestamp ∈ as) ?_ ?_ hrun
    n task htask k v horigin
  · intro n task htask
    exact absurd htask List.not_mem_nil
  · intro as t a u _ ih hstep n task htask k v horigin
    obtain ⟨old, hold, heq⟩ | ⟨key, value, now, rfl, heq⟩ | ⟨ex, _, heq⟩ :=
      ((step_spec hstep).node n).mem_tasks htask
    · exact List.mem_append_left _ (ih n old hold k v (heq ▸ horigin))
    · obtain ⟨rfl, rfl⟩ : key = k ∧ _ = v := by simpa using heq.symm.trans horigin
      exact List.mem_append_right _ List.mem_cons_self
    · simp [heq] at horigin

structure Positive (c : Cluster ι) : Prop where
  called : ∀ n, ∀ task ∈ (c.nodes n).live.tasks, ∀ entry ∈ task.origin.offering,
    0 < entry.2.timestamp
  stored : ∀ n k v, c.get n k = some v → 0 < v.timestamp
  sent : ∀ ex ∈ c.exchanges, ∀ entry ∈ ex.msg.deltas, 0 < entry.2.timestamp

omit [DecidableEq ι] in
theorem positive_init (net : Network ι) : Positive (init net) where
  called := fun _ _ htask => absurd htask List.not_mem_nil
  stored := by simp [init, get, Node.new, LiveStore.new, StateStore.new, StateStore.get]
  sent := fun _ hex => absurd hex List.not_mem_nil

theorem Steps.sent {a : Action ι} (hsteps : Steps net c a c') {ex' : Exchange ι}
    (hex' : ex' ∈ c'.exchanges) {entry : String × LwwValue} (hentry : entry ∈ ex'.msg.deltas) :
    (∃ ex ∈ c.exchanges, entry ∈ ex.msg.deltas) ∨ ∃ n, c.get n entry.1 = some entry.2 := by
  obtain ⟨x, hx⟩ := List.mem_iff_getElem?.mp hex'
  obtain ⟨ex, hex, hsame, _⟩ | ⟨_, hpushed, _⟩ := hsteps.samePush hx
  · exact Or.inl ⟨ex, List.mem_of_getElem? hex, hsame.msg ▸ hentry⟩
  · obtain ⟨info, _, _, hdelta⟩ := hpushed.copy
    exact Or.inr ⟨ex'.sender, (mem_deltaSince.mp (hdelta.mem_iff.mp hentry)).1⟩

theorem Positive.step (h : Positive c) {a : Action ι} (hsteps : Steps net c a c')
    (hclock : ∀ n key value now, a = .callSet n key value now → 0 < now) : Positive c' where
  called := by
    intro n task htask entry hentry
    obtain ⟨old, hold, heq⟩ | ⟨key, value, now, hact, heq⟩ | ⟨ex, hex, heq⟩ :=
      (hsteps.node n).mem_tasks htask
    · exact h.called n old hold entry (heq ▸ hentry)
    · rw [heq] at hentry
      rw [List.mem_singleton.mp hentry]
      exact hclock n key value now hact
    · rw [heq] at hentry
      exact h.sent ex hex entry hentry
  stored := by
    intro n k v hv
    obtain hold | ⟨i, task, _, htask, hoffering, _⟩ := (hsteps.node n).get_cases hv
    · exact h.stored n k v hold
    · refine h.called n task (List.mem_of_getElem? htask) (k, v) ?_
      obtain rfl | ⟨delta, rfl, hdelta⟩ := Task.mem_offering hoffering
      · exact hoffering
      · exact hdelta
  sent := by
    intro ex' hex' entry hentry
    obtain ⟨ex, hex, hold⟩ | ⟨n, hget⟩ := hsteps.sent hex' hentry
    · exact h.sent ex hex entry hold
    · exact h.stored n entry.1 entry.2 hget

theorem run_positive {as : List (Action ι)} (hclock : ∀ n, ∀ now ∈ readings n as, 0 < now)
    (hrun : Machine.run (step net) (init net) as = some c) : Positive c := by
  have hguard : Machine.Guarded (step net)
      (fun _ a => ∀ n key value now, a = .callSet n key value now → 0 < now) (init net) as := by
    refine Machine.guarded_of_forall ?_ _
    rintro a ha _ n key value now rfl
    exact hclock n now (mem_readings ha)
  refine Machine.run_invariant_of_guarded ?_ (positive_init net) hguard hrun
  intro s a t h hclock hstep
  exact h.step (step_spec hstep) hclock

end Cluster

end StateSync
