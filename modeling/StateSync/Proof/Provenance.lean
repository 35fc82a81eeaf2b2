import StateSync.Proof.Clocks
import StateSync.Proof.Refinement

/-!
# Provenance and uniqueness of stamps

Every entry that is found anywhere in the cluster was stored for the first time by the `set` that
wrote it, and a stamp never has two values. Clocks play no part in this: a stalled clock draws the
same reading twice, and then the writer's own store keeps the first value.
-/

namespace StateSync

namespace Cluster

variable {ι : Type} {net : Network ι} {c c' : Cluster ι}

def Found (c : Cluster ι) (k : String) (v : LwwValue) : Prop :=
  (∃ n, c.get n k = some v) ∨ (∃ ex ∈ c.exchanges, (k, v) ∈ ex.msg.deltas)
    ∨ ∃ n, { key := k, value := v } ∈ (c.nodes n).live.events

theorem Found.occurs {k : String} {v : LwwValue} (h : c.Found k v) : c.replicas.Occurs k v := by
  obtain ⟨n, hget⟩ | ⟨ex, hex, hv⟩ | ⟨n, hevent⟩ := h
  · exact Or.inl ⟨n, Or.inl hget⟩
  · exact Or.inr (List.mem_flatMap.mpr ⟨ex, hex, hv⟩)
  · exact Or.inl ⟨n, Or.inr (Or.inr hevent)⟩

variable [DecidableEq ι]

/-- In the course of these actions the entry was found nowhere, until a `set` of its key and value,
called at its timestamp on the node it names, took its locked step and stored it. -/
def FirstStored (net : Network ι) (as : List (Action ι)) (k : String) (v : LwwValue) : Prop :=
  ∃ pre post n i before after, as = pre ++ .advance n i :: post
    ∧ .callSet n k v.value v.timestamp ∈ pre ∧ net.ids n = v.nodeId
    ∧ Machine.run (step net) (init net) pre = some before
    ∧ (before.nodes n).live.tasks[i]? = some (.set k v .drawn) ∧ ¬ before.Found k v
    ∧ before.step net (.advance n i) = some after ∧ after.get n k = some v

theorem FirstStored.concat {as : List (Action ι)} {k : String} {v : LwwValue}
    (h : FirstStored net as k v) (a : Action ι) : FirstStored net (as ++ [a]) k v := by
  obtain ⟨pre, post, n, i, before, after, rfl, h⟩ := h
  exact ⟨pre, post ++ [a], n, i, before, after, by simp, h⟩

theorem firstStored_step (hids : Function.Injective net.ids) {as : List (Action ι)} {a : Action ι}
    (hstable : ∀ n, Action.restart n ∉ as ++ [a])
    (hrun : Machine.run (step net) (init net) as = some c) (hstep : c.step net a = some c')
    {k : String} {v : LwwValue} (hold : ¬ c.replicas.Occurs k v) (hnew : c'.replicas.Occurs k v) :
    FirstStored net (as ++ [a]) k v := by
  have hstable' : ∀ n, Action.restart n ∉ as := fun n hn => hstable n (List.mem_append_left _ hn)
  have ha : ∀ n, a ≠ .restart n := by
    rintro n rfl
    exact hstable n (List.mem_append_right _ List.mem_cons_self)
  have hwf := run_replicas_wellFormed hids hstable' hrun
  obtain heq | ⟨b, hb, hadvance⟩ := (step_spec hstep).replicas ha
  · exact absurd (heq ▸ hnew) hold
  · obtain hv | ⟨n, i, rfl, htask, hlt⟩ := hwf.sourced.occurs_step hb hnew
    · exact absurd hv hold
    · obtain rfl := hadvance n i rfl
      have hget : (c'.replicas.nodes n).get k = some v := by
        rw [Replicas.get_of_advance_set hb htask]
        exact (Register.offer_cases LwwValue.stamp _ v).elim
          (fun h => absurd hlt (not_lt.mpr h.2)) And.left
      have hcall := run_callSet hrun (List.mem_of_getElem? htask) (k := k) (v := v) rfl
      exact ⟨as, [], n, i, c, c', rfl, hcall, (hwf.sourced.writer htask).symm, hrun, htask,
        fun hfound => hold hfound.occurs, hstep, hget⟩

theorem run_firstStored (hids : Function.Injective net.ids) {as : List (Action ι)}
    (hstable : ∀ n, Action.restart n ∉ as)
    (hrun : Machine.run (step net) (init net) as = some c) {k : String} {v : LwwValue}
    (hv : c.replicas.Occurs k v) : FirstStored net as k v := by
  refine Machine.run_induction (P := fun as c => (∀ n, Action.restart n ∉ as) →
    ∀ k v, c.replicas.Occurs k v → FirstStored net as k v) ?_ ?_ hrun hstable k v hv
  · intro _ k v hv
    exact absurd hv (Replicas.not_occurs_init k v)
  · intro as t a u hrun ih hstep hstable k v hv
    by_cases hold : t.replicas.Occurs k v
    · exact (ih (fun n hn => hstable n (List.mem_append_left _ hn)) k v hold).concat a
    · exact firstStored_step hids hstable hrun hstep hold hv

/-- **Provenance and stamp uniqueness.** Whatever is found in a store, in a message or in an event
was first stored by its own `set`, on the node it names and at its timestamp, and two entries of a
key with the same timestamp and node id have the same value. -/
theorem found_provenance (hids : Function.Injective net.ids) {as : List (Action ι)}
    (hstable : ∀ n, Action.restart n ∉ as)
    (hrun : Machine.run (step net) (init net) as = some c) :
    (∀ k v, c.Found k v → FirstStored net as k v)
      ∧ ∀ k v w, c.Found k v → c.Found k w → v.timestamp = w.timestamp → v.nodeId = w.nodeId →
          v.value = w.value := by
  refine ⟨fun k v hv => run_firstStored hids hstable hrun hv.occurs, ?_⟩
  intro k v w hv hw hts hid
  have hwf := run_replicas_wellFormed hids hstable hrun
  have heq := hwf.stampUnique k v w hv.occurs hw.occurs (LwwValue.stamp_eq_iff.mpr ⟨hts, hid⟩)
  rw [heq]

/-- A stalled clock: two `set` calls of one key draw the same reading, and the first is gossiped. -/
def stalledClock : List (Action Bool) :=
  List.flatten
    [Action.setAlone false "k" "x" 5 0,
      Action.setAlone false "k" "y" 5 1,
      Action.roundAlone false [("10.0.0.2:7071", PeerInfo.new "10.0.0.2:7071")]
        [("k", ⟨"x", 5, "node-a"⟩)] 0 true 0 4]

theorem found_provenance_stalled_clock :
    ∃ c, Machine.run (step twoNodes) (init twoNodes) stalledClock = some c
      ∧ c.get true "k" = some ⟨"x", 5, "node-a"⟩
      ∧ FirstStored twoNodes stalledClock "k" ⟨"x", 5, "node-a"⟩ := by
  have hrun : (Machine.run (step twoNodes) (init twoNodes) stalledClock).any
      fun c => c.get true "k" = some ⟨"x", 5, "node-a"⟩ := by
    decide +kernel
  obtain ⟨c, hrun, hget⟩ := Machine.exists_of_any_run hrun
  have hget := of_decide_eq_true hget
  have hprovenance := found_provenance twoNodes_ids_injective (by decide) hrun
  exact ⟨c, hrun, hget, hprovenance.1 "k" _ (Or.inl ⟨true, hget⟩)⟩

end Cluster

end StateSync
