import StateSync.State.Replicas

/-!
# Where entries come from

A merge can only store what was gossiped, and only what a store holds is gossiped. So an entry that
is found nowhere can only come into being when a `set` stores it, on the node it names as its writer
and over an entry with a smaller stamp. The writer's own store never goes backwards, hence no other
entry with that stamp exists or ever will.
-/

namespace StateSync

open Register

theorem Task.mem_offering {task : Task} {k : String} {v : LwwValue} (h : (k, v) ∈ task.offering) :
    task = .set k v .drawn ∨ ∃ delta, task = .merge delta .called ∧ (k, v) ∈ delta := by
  cases task with
  | set key incoming pc =>
      cases pc with
      | drawn =>
          obtain ⟨rfl, rfl⟩ := by simpa [offering] using h
          exact Or.inl rfl
      | stored winner => simp [offering] at h
      | returned winner => simp [offering] at h
  | merge delta pc =>
      cases pc with
      | called => exact Or.inr ⟨delta, rfl, h⟩
      | announcing updated pending => simp [offering] at h
      | reread updated key val pending => simp [offering] at h
      | returned updated => simp [offering] at h

def Task.Sourced (owner : String) (gossiped : StateDelta) (task : Task) : Prop :=
  (∃ k v, task.origin = .set k v .drawn ∧ v.nodeId = owner)
    ∨ ∃ delta, task.origin = .merge delta .called ∧ delta ⊆ gossiped

/-- A store of the node with this id, on which only its own `set` calls and merges of gossiped
entries were made. -/
structure LiveStore.Sourced (owner : String) (gossiped : StateDelta) (live : LiveStore) : Prop where
  nodeId : live.nodeId = owner
  consistent : live.Consistent
  tasks : ∀ task ∈ live.tasks, task.Sourced owner gossiped

namespace LiveStore.Sourced

variable {owner : String} {gossiped gossiped' : StateDelta} {live live' : LiveStore}

theorem mono (h : live.Sourced owner gossiped) (hsub : gossiped ⊆ gossiped') :
    live.Sourced owner gossiped' := by
  refine ⟨h.nodeId, h.consistent, ?_⟩
  intro task htask
  refine (h.tasks task htask).imp id ?_
  rintro ⟨delta, horigin, hdelta⟩
  exact ⟨delta, horigin, List.Subset.trans hdelta hsub⟩

theorem step (h : live.Sourced owner gossiped) {sa : StoreAction} (hsa : sa.Gossiped gossiped)
    (hstep : live.step sa = some live') : live'.Sourced owner gossiped := by
  refine ⟨(step_nodeId hstep).trans h.nodeId, h.consistent.step hstep, ?_⟩
  intro task htask
  unfold Task.Sourced
  obtain ⟨old, hold, horigin⟩ | ⟨key, value, now, _, horigin⟩ | ⟨delta, rfl, horigin⟩ :=
    mem_tasks_step hstep htask
  · rw [horigin]
    exact h.tasks old hold
  · exact Or.inl ⟨key, _, horigin, h.nodeId⟩
  · exact Or.inr ⟨delta, horigin, hsa⟩

end LiveStore.Sourced

namespace Replicas

variable {ι : Type} {ids : ι → String} {r r' : Replicas ι}

def Sourced (ids : ι → String) (r : Replicas ι) : Prop :=
  ∀ n, (r.nodes n).Sourced (ids n) r.gossiped

theorem sourced_init (ids : ι → String) : Sourced ids (init ids) := fun _ =>
  { nodeId := rfl
    consistent := LiveStore.consistent_of_tasks_nil rfl rfl
    tasks := fun _ htask => absurd htask List.not_mem_nil }

theorem Sourced.step [DecidableEq ι] (h : Sourced ids r) {a : ReplicaAction ι}
    (hstep : r.step a = some r') :
    Sourced ids r' := by
  obtain ⟨n, sa, live, _, hsa, hlive, hnodes, hgossiped⟩ | ⟨n, delta, _, _, rfl⟩ := step_cases hstep
  · unfold Sourced
    rw [hgossiped, hnodes]
    apply (Function.forall_update_iff r.nodes fun m live => live.Sourced (ids m) r.gossiped).mpr
    exact ⟨(h n).step hsa hlive, fun m _ => h m⟩
  · exact fun m => (h m).mono (List.subset_append_left _ _)

/-! ### New entries -/

/-- An entry of a store after a step was there before, or a `set` of this very entry stored it over
a smaller stamp, or the step merged a gossiped entry. -/
theorem Sourced.get_step (h : Sourced ids r) {n : ι} {sa : StoreAction} {live : LiveStore}
    (hlive : (r.nodes n).step sa = some live) {k : String} {v : LwwValue}
    (hv : live.get k = some v) :
    (r.nodes n).get k = some v ∨ (k, v) ∈ r.gossiped ∨
      ∃ i, sa = .advance i ∧ (r.nodes n).tasks[i]? = some (.set k v .drawn)
        ∧ (r.nodes n).state.stampAt k < v.stamp := by
  obtain hold | ⟨i, task, rfl, htask, hoffering, hlt⟩ := LiveStore.get_step hlive hv
  · exact Or.inl hold
  · obtain rfl | ⟨delta, rfl, hdelta⟩ := Task.mem_offering hoffering
    · exact Or.inr (Or.inr ⟨i, rfl, htask, hlt⟩)
    · obtain ⟨_, _, horigin, _⟩ | ⟨delta', horigin, hsub⟩ :=
        (h n).tasks _ (List.mem_of_getElem? htask)
      · simp [Task.origin] at horigin
      · obtain rfl : delta = delta' := by simpa [Task.origin] using horigin
        exact Or.inr (Or.inl (hsub hdelta))

end Replicas

theorem LiveStore.get_of_advance_set {live live' : LiveStore} {i : Nat} {k : String} {v : LwwValue}
    (hstep : live.step (.advance i) = some live')
    (htask : live.tasks[i]? = some (.set k v .drawn)) :
    live'.get k = offer LwwValue.stamp (live.get k) v := by
  obtain ⟨_, _, _, _, _, hcall⟩ | ⟨j, task, task', sent, ha, htask', _, _, _, hadvance⟩ :=
    step_cases hstep
  · simp at hcall
  · obtain rfl : i = j := by simpa using ha
    rw [htask, Option.some.injEq] at htask'
    subst htask'
    unfold StateStore.get
    rw [(Task.advance_spec hadvance).lookup k]
    simp [Task.offering, valuesFor]

theorem LiveStore.shows_step {live live' : LiveStore} {sa : StoreAction}
    (hstep : live.step sa = some live') {k : String} {v : LwwValue} (hv : live'.Shows k v) :
    live.Shows k v ∨ live'.get k = some v := by
  obtain ⟨task, rfl, _, hholding, _⟩ | ⟨i, task, task', sent, _, htask, _, htasks, hevents,
    hadvance⟩ := step_cases hstep
  · obtain hget | ⟨t, ht, hhold⟩ | hevent := hv
    · exact Or.inr hget
    · rcases List.mem_append.mp ht with ht | ht
      · exact Or.inl (Or.inr (Or.inl ⟨t, ht, hhold⟩))
      · rw [List.mem_singleton.mp ht, hholding] at hhold
        exact absurd hhold List.not_mem_nil
    · exact Or.inl (Or.inr (Or.inr hevent))
  · have hspec := Task.advance_spec hadvance
    obtain hget | ⟨t, ht, hhold⟩ | hevent := hv
    · exact Or.inr hget
    · rw [htasks] at ht
      rcases List.mem_or_eq_of_mem_set ht with ht | rfl
      · exact Or.inl (Or.inr (Or.inl ⟨t, ht, hhold⟩))
      · exact Or.inr (hspec.holding (k, v) hhold)
    · rw [hevents, hspec.sent] at hevent
      rcases List.mem_append.mp hevent with hevent | hevent
      · exact Or.inl (Or.inr (Or.inr hevent))
      · obtain ⟨⟨k', v'⟩, hhold, heq⟩ := List.mem_map.mp hevent
        obtain ⟨rfl, rfl⟩ := StateEvent.mk.inj heq
        exact Or.inl (Or.inr (Or.inl ⟨task, List.mem_of_getElem? htask, hhold⟩))

namespace Replicas

variable {ι : Type} {ids : ι → String} {r r' : Replicas ι}

theorem Sourced.writer (h : Sourced ids r) {n : ι} {i : Nat} {k : String} {v : LwwValue}
    {pc : SetPc} (htask : (r.nodes n).tasks[i]? = some (.set k v pc)) : v.nodeId = ids n := by
  obtain ⟨k', v', horigin, howner⟩ | ⟨delta, horigin, _⟩ :=
    (h n).tasks _ (List.mem_of_getElem? htask)
  · obtain ⟨rfl, rfl⟩ : k = k' ∧ v = v' := by simpa [Task.origin] using horigin
    exact howner
  · simp [Task.origin] at horigin

theorem not_occurs_init (k : String) (v : LwwValue) : ¬ (init ids).Occurs k v := by
  rintro (⟨n, hget | ⟨task, htask, _⟩ | hevent⟩ | hmsg)
  · simp [init, LiveStore.new, StateStore.new, StateStore.get] at hget
  · exact List.not_mem_nil htask
  · exact List.not_mem_nil hevent
  · exact List.not_mem_nil hmsg

def HeldByWriter (ids : ι → String) (r : Replicas ι) : Prop :=
  ∀ k v n, r.Occurs k v → ids n = v.nodeId → (r.nodes n).state.Dominates k v

def StampUnique (r : Replicas ι) : Prop :=
  ∀ k v w, r.Occurs k v → r.Occurs k w → v.stamp = w.stamp → v = w

variable [DecidableEq ι]

/-- **The only way an entry comes into being.** An entry that occurs after a step and did not before
was stored by the locked section of a `set`, over a smaller stamp. -/
theorem Sourced.occurs_step (h : Sourced ids r) {a : ReplicaAction ι} (hstep : r.step a = some r')
    {k : String} {v : LwwValue} (hv : r'.Occurs k v) :
    r.Occurs k v ∨ ∃ n i, a = .store n (.advance i)
      ∧ (r.nodes n).tasks[i]? = some (.set k v .drawn)
      ∧ (r.nodes n).state.stampAt k < v.stamp := by
  obtain ⟨n, sa, live, rfl, _, hlive, hnodes, hgossiped⟩ | ⟨n, delta, _, hdelta, rfl⟩ :=
    step_cases hstep
  · obtain ⟨m, hshows⟩ | hmsg := hv
    · by_cases hm : m = n
      · subst hm
        rw [hnodes, Function.update_self] at hshows
        obtain hshows | hget := LiveStore.shows_step hlive hshows
        · exact Or.inl (Or.inl ⟨m, hshows⟩)
        · obtain hget | hmsg | ⟨i, rfl, htask, hlt⟩ := h.get_step hlive hget
          · exact Or.inl (Or.inl ⟨m, Or.inl hget⟩)
          · exact Or.inl (Or.inr hmsg)
          · exact Or.inr ⟨m, i, rfl, htask, hlt⟩
      · rw [hnodes, Function.update_of_ne hm] at hshows
        exact Or.inl (Or.inl ⟨m, hshows⟩)
    · exact Or.inl (Or.inr (hgossiped ▸ hmsg))
  · obtain hshows | hmsg := hv
    · exact Or.inl (Or.inl hshows)
    · rcases List.mem_append.mp hmsg with hmsg | hmsg
      · exact Or.inl (Or.inr hmsg)
      · exact Or.inl (Or.inl ⟨n, Or.inl (hdelta (k, v) hmsg)⟩)

theorem step_behind {a : ReplicaAction ι} (hstep : r.step a = some r') (n : ι) (k : String) :
    Behind LwwValue.stamp ((r.nodes n).get k) ((r'.nodes n).get k) := by
  obtain ⟨m, sa, live, _, _, hlive, hnodes, _⟩ | ⟨m, delta, _, _, rfl⟩ := step_cases hstep
  · by_cases hn : n = m
    · subst hn
      rw [hnodes, Function.update_self]
      exact LiveStore.step_behind hlive k
    · rw [hnodes, Function.update_of_ne hn]
      exact Behind.refl _
  · exact Behind.refl _

theorem get_of_advance_set {n : ι} {i : Nat} {k : String} {v : LwwValue}
    (hstep : r.step (.store n (.advance i)) = some r')
    (htask : (r.nodes n).tasks[i]? = some (.set k v .drawn)) :
    (r'.nodes n).get k = offer LwwValue.stamp ((r.nodes n).get k) v := by
  obtain ⟨m, sa, live, ha, _, hlive, hnodes, _⟩ | ⟨m, delta, ha, _⟩ := step_cases hstep
  · obtain ⟨rfl, rfl⟩ : n = m ∧ .advance i = sa := by simpa using ha
    rw [hnodes, Function.update_self]
    exact LiveStore.get_of_advance_set hlive htask
  · simp at ha

/-! ### Stamps are unique -/

theorem HeldByWriter.step (hids : Function.Injective ids) (hsourced : Sourced ids r)
    (h : HeldByWriter ids r) {a : ReplicaAction ι} (hstep : r.step a = some r') :
    HeldByWriter ids r' := by
  intro k v n hv hn
  obtain hv | ⟨m, i, rfl, htask, _⟩ := hsourced.occurs_step hstep hv
  · exact (h k v n hv hn).mono (step_behind hstep n k)
  · -- the entry was stored by this step, on the only node with that id
    obtain rfl : n = m := hids (hn.trans (hsourced.writer htask))
    unfold StateMap.Dominates StateMap.stampAt
    change (v.stamp : WithBot (ℕ ×ₗ String)) ≤ stampOf LwwValue.stamp ((r'.nodes n).get k)
    rw [get_of_advance_set hstep htask, stampOf_offer]
    exact le_max_right _ _

theorem StampUnique.step (hsourced : Sourced ids r) (hheld : HeldByWriter ids r) (h : StampUnique r)
    {a : ReplicaAction ι} (hstep : r.step a = some r') : StampUnique r' := by
  -- an entry that came into being just now has a stamp its writer was still below
  have hfresh : ∀ k v w, r.Occurs k w → w.stamp = v.stamp →
      ¬ ∃ n i, a = .store n (.advance i) ∧ (r.nodes n).tasks[i]? = some (.set k v .drawn)
        ∧ (r.nodes n).state.stampAt k < v.stamp := by
    rintro k v w hw hstamp ⟨n, i, _, htask, hlt⟩
    have hwriter : ids n = w.nodeId :=
      (hsourced.writer htask).symm.trans (LwwValue.stamp_eq_iff.mp hstamp).2.symm
    have hle := hheld k w n hw hwriter
    unfold StateMap.Dominates at hle
    rw [hstamp] at hle
    exact absurd hlt (not_lt.mpr hle)
  intro k v w hv hw hstamp
  obtain hv | hnewv := hsourced.occurs_step hstep hv
  · obtain hw | hneww := hsourced.occurs_step hstep hw
    · exact h k v w hv hw hstamp
    · exact absurd hneww (hfresh k w v hv hstamp)
  · obtain hw | ⟨m, j, ha', hw, _⟩ := hsourced.occurs_step hstep hw
    · exact absurd hnewv (hfresh k v w hw hstamp.symm)
    · obtain ⟨n, i, ha, hv, _⟩ := hnewv
      rw [ha] at ha'
      obtain ⟨rfl, rfl⟩ : n = m ∧ i = j := by simpa using ha'
      rw [hv] at hw
      simpa using hw

structure WellFormed (ids : ι → String) (r : Replicas ι) : Prop where
  sourced : Sourced ids r
  heldByWriter : HeldByWriter ids r
  stampUnique : StampUnique r

theorem WellFormed.step (hids : Function.Injective ids) (h : WellFormed ids r)
    {a : ReplicaAction ι} (hstep : r.step a = some r') : WellFormed ids r' where
  sourced := h.sourced.step hstep
  heldByWriter := h.heldByWriter.step hids h.sourced hstep
  stampUnique := h.stampUnique.step h.sourced h.heldByWriter hstep

theorem run_wellFormed (hids : Function.Injective ids) {as : List (ReplicaAction ι)}
    (hrun : Machine.run step (init ids) as = some r) : WellFormed ids r := by
  refine Machine.run_invariant (fun _ _ _ h hstep => h.step hids hstep) ?_ hrun
  exact
    { sourced := sourced_init ids
      heldByWriter := fun k v _ hv => absurd hv (not_occurs_init k v)
      stampUnique := fun k v _ hv => absurd hv (not_occurs_init k v) }

omit [DecidableEq ι] in
/-- An entry that occurs somewhere and that a store dominates is the store's own, or is older. -/
theorem WellFormed.behind_of_dominates (h : WellFormed ids r) {n : ι} {k : String} {v : LwwValue}
    (hv : r.Occurs k v) (hdominates : (r.nodes n).state.Dominates k v) :
    Behind LwwValue.stamp (some v) ((r.nodes n).get k) := by
  obtain hlt | heq := lt_or_eq_of_le hdominates
  · exact Or.inr hlt
  · apply Or.inl
    cases hw : (r.nodes n).get k with
    | none =>
        have hbot : (v.stamp : WithBot (ℕ ×ₗ String)) = ⊥ := by
          rw [heq, StateMap.stampAt, ← StateStore.get, hw, stampOf_none]
        simp at hbot
    | some w =>
        rw [StateMap.stampAt, ← StateStore.get, hw, stampOf_some, WithBot.coe_inj] at heq
        rw [h.stampUnique k v w hv (Or.inl ⟨n, Or.inl hw⟩) heq]

end Replicas

end StateSync
