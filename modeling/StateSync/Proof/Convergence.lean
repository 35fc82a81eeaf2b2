import StateSync.Proof.Origin

/-!
# Stores that were offered the same entries

`merge` alone does not make the order of offers irrelevant, since of two values with one stamp it
keeps the first. Among entries that really occur a stamp has one value, and then a store is
determined by the set of entries it was offered: it holds one of them for each key, and none of them
is newer.
-/

namespace StateSync

open Register

def LiveStore.Stocked (live : LiveStore) : Prop :=
  ∀ k v, live.get k = some v → (k, v) ∈ live.tasks.flatMap Task.offered

theorem LiveStore.offered_step {live live' : LiveStore} {sa : StoreAction}
    (hstep : live.step sa = some live') :
    live.tasks.flatMap Task.offered ⊆ live'.tasks.flatMap Task.offered := by
  intro entry hentry
  obtain ⟨t, ht, hoffered⟩ := List.mem_flatMap.mp hentry
  apply List.mem_flatMap.mpr
  obtain ⟨task, rfl, _⟩ | ⟨i, task, task', sent, _, htask, _, htasks, _, hadvance⟩ :=
    step_cases hstep
  · exact ⟨t, List.mem_append_left _ ht, hoffered⟩
  · rw [htasks]
    obtain ht | rfl := Slots.mem_set_or_eq task' htask ht
    · exact ⟨t, ht, hoffered⟩
    · refine ⟨task', Slots.mem_set_self task' htask, ?_⟩
      rw [(Task.advance_spec hadvance).offered]
      exact List.mem_append_left _ hoffered

theorem LiveStore.Stocked.step {live live' : LiveStore} (h : live.Stocked) {sa : StoreAction}
    (hstep : live.step sa = some live') : live'.Stocked := by
  intro k v hv
  obtain hold | ⟨i, task, rfl, htask, hoffering, _⟩ := get_step hstep hv
  · exact offered_step hstep (h k v hold)
  · obtain ⟨_, _, _, _, _, hcall⟩ | ⟨j, t, task', sent, ha, ht, _, htasks, _, hadvance⟩ :=
      step_cases hstep
    · simp at hcall
    · obtain rfl : i = j := by simpa using ha
      obtain rfl : task = t := Option.some.inj (htask.symm.trans ht)
      refine List.mem_flatMap.mpr ⟨task', htasks ▸ Slots.mem_set_self task' htask, ?_⟩
      rw [(Task.advance_spec hadvance).offered]
      exact List.mem_append_right _ hoffering

namespace Replicas

variable {ι : Type} {ids : ι → String} {r : Replicas ι}

theorem run_stocked [DecidableEq ι] {as : List (ReplicaAction ι)}
    (hrun : Machine.run step (init ids) as = some r) (n : ι) : (r.nodes n).Stocked := by
  refine Machine.run_invariant (P := fun r => ∀ n, (r.nodes n).Stocked) ?_ ?_ hrun n
  · intro s a t hs hstep
    obtain ⟨m, sa, live, _, _, hlive, hnodes, _⟩ | ⟨m, delta, _, _, rfl⟩ := step_cases hstep
    · rw [hnodes]
      apply (Function.forall_update_iff s.nodes fun _ live => live.Stocked).mpr
      exact ⟨(hs m).step hlive, fun m _ => hs m⟩
    · exact hs
  · intro n k v hv
    simp [init, LiveStore.new, StateStore.new, StateStore.get] at hv

theorem stampAt_le_of_offered (h : WellFormed ids r) {m n : ι} (hstocked : (r.nodes m).Stocked)
    (hsub : r.offeredTo m ⊆ r.offeredTo n) (k : String) :
    (r.nodes m).state.stampAt k ≤ (r.nodes n).state.stampAt k := by
  rw [StateStore.stampAt_eq]
  cases hv : (r.nodes m).get k with
  | none => exact bot_le
  | some v =>
      obtain ⟨task, htask, hoffered⟩ := List.mem_flatMap.mp (hsub (hstocked k v hv))
      exact (h.sourced n).consistent.offered task htask k v hoffered

theorem WellFormed.get_eq_of_stampAt_eq (h : WellFormed ids r) {m n : ι} {k : String}
    (hstamp : (r.nodes m).state.stampAt k = (r.nodes n).state.stampAt k) :
    (r.nodes m).get k = (r.nodes n).get k := by
  rw [StateStore.stampAt_eq, StateStore.stampAt_eq] at hstamp
  cases hv : (r.nodes m).get k with
  | none =>
      cases hw : (r.nodes n).get k with
      | none => rfl
      | some w => simp [hv, hw] at hstamp
  | some v =>
      cases hw : (r.nodes n).get k with
      | none => simp [hv, hw] at hstamp
      | some w =>
          rw [hv, hw, stampOf_some, stampOf_some, WithBot.coe_inj] at hstamp
          rw [h.stampUnique k v w (Or.inl ⟨m, Or.inl hv⟩) (Or.inl ⟨n, Or.inl hw⟩) hstamp]

/-- **Strong eventual consistency.** In every reachable state, two nodes that were offered the same
set of entries, in whatever order and batches, hold the same map. -/
theorem get_eq_of_same_offers [DecidableEq ι] (hids : Function.Injective ids)
    {as : List (ReplicaAction ι)} (hrun : Machine.run step (init ids) as = some r) {m n : ι}
    (hmn : r.offeredTo m ⊆ r.offeredTo n) (hnm : r.offeredTo n ⊆ r.offeredTo m) (k : String) :
    (r.nodes m).get k = (r.nodes n).get k := by
  have h := run_wellFormed hids hrun
  apply h.get_eq_of_stampAt_eq
  apply le_antisymm
  · exact stampAt_le_of_offered h (run_stocked hrun m) hmn k
  · exact stampAt_le_of_offered h (run_stocked hrun n) hnm k

/-- Two nodes write one key at the same clock reading, and merge each other's write. -/
def tiedWrites : List (ReplicaAction Bool) :=
  [.store false (.callSet "k" "x" 5), .store true (.callSet "k" "y" 5),
    .store false (.advance 0), .store true (.advance 0),
    .gossip false [("k", ⟨"x", 5, "node-a"⟩)], .gossip true [("k", ⟨"y", 5, "node-b"⟩)],
    .store false (.callMerge [("k", ⟨"y", 5, "node-b"⟩)]), .store false (.advance 1),
    .store true (.callMerge [("k", ⟨"x", 5, "node-a"⟩)]), .store true (.advance 1)]

def twoIds (n : Bool) : String := if n then "node-b" else "node-a"

theorem get_eq_of_same_offers_tie :
    ∃ r, Machine.run step (init twoIds) tiedWrites = some r
      ∧ r.offeredTo false ⊆ r.offeredTo true ∧ r.offeredTo true ⊆ r.offeredTo false
      ∧ (r.nodes false).get "k" = (r.nodes true).get "k" := by
  have hrun : (Machine.run step (init twoIds) tiedWrites).any (fun r =>
      decide (r.offeredTo false ⊆ r.offeredTo true ∧ r.offeredTo true ⊆ r.offeredTo false)) := by
    decide
  obtain ⟨r, hrun, hoffered⟩ := Machine.exists_of_any_run hrun
  obtain ⟨hmn, hnm⟩ := of_decide_eq_true hoffered
  have hids : Function.Injective twoIds := by
    intro a b
    cases a <;> cases b <;> simp [twoIds]
  exact ⟨r, hrun, hmn, hnm, get_eq_of_same_offers hids hrun hmn hnm "k"⟩

end Replicas

end StateSync
