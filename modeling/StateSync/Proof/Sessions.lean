import StateSync.Proof.History
import StateSync.Proof.Linearization
import StateSync.Proof.Merges

/-!
# What a caller sees after it has seen something

A caller that waits for one call to return before it makes the next never sees the store go back: it
reads its own writes, its reads are monotonic, what it has merged is there, and the counters only
grow. The two calls may be of any kind, and any number of others may overlap with both.
-/

namespace StateSync

open Register Linearizable

/-- The answer says that this was the entry of the key when the call took effect. -/
def Operation.Shows : Operation → Answer → String → LwwValue → Prop
  | .update (.set _ key _), .winner winner, k, v => k = key ∧ v = winner
  | .query (.get key), .entry entry, k, v => k = key ∧ entry = some v
  | .query .snapshot, .delta delta, k, v => (k, v) ∈ delta
  | .query (.deltaSince _), .delta delta, k, v => (k, v) ∈ delta
  | _, _, _, _ => False

/-- The answer is as it should be when the key held the entry or had gone on to a newer one. -/
def Operation.Accounts : Operation → Answer → String → LwwValue → Prop
  | .update (.set _ key _), .winner winner, k, v =>
      k = key → Behind LwwValue.stamp (some v) (some winner)
  | .update (.mergeDelta delta), .updated keys, k, v =>
      k ∈ keys → ∃ w, (k, w) ∈ delta ∧ v.stamp < w.stamp
  | .query (.get key), .entry entry, k, v => k = key → Behind LwwValue.stamp (some v) entry
  | .query .snapshot, .delta delta, k, v =>
      ∃ w, (k, w) ∈ delta ∧ Behind LwwValue.stamp (some v) (some w)
  | .query (.deltaSince since), .delta delta, k, v =>
      since < v.timestamp → ∃ w, (k, w) ∈ delta ∧ Behind LwwValue.stamp (some v) (some w)
  | .query .maxTimestamp, .number n, _, v => v.timestamp ≤ n
  | .query .len, .number n, _, _ => 0 < n
  | .query .isEmpty, .flag b, _, _ => b = false
  | _, _, _, _ => False

namespace StateStore

variable {store store' : StateStore}

/-- No key of the first store has gone back in the second. -/
def Precedes (store store' : StateStore) : Prop :=
  ∀ k, Behind LwwValue.stamp (store.get k) (store'.get k)

theorem precedes_apply (store : StateStore) (op : Operation) :
    store.Precedes (store.apply op).1 := by
  intro k
  cases op with
  | update op =>
      have hperform : (store.apply (.update op)).1 = store.perform op := by
        cases op with
        | set now key value => rfl
        | mergeDelta delta => rfl
      rw [hperform, get_perform]
      exact behind_offers _ _
  | query query => exact Behind.refl _

theorem Precedes.exists_get (h : store.Precedes store') {k : String} {v : LwwValue}
    (hv : Behind LwwValue.stamp (some v) (store.get k)) :
    ∃ w, store'.get k = some w ∧ Behind LwwValue.stamp (some v) (some w) := by
  have hbehind := hv.trans (h k)
  cases hget : store'.get k with
  | none =>
      rw [hget] at hbehind
      exact absurd hbehind.eq_none (by simp)
  | some w => exact ⟨w, rfl, hget ▸ hbehind⟩

theorem Precedes.maxTimestamp_le (h : store.Precedes store') :
    store.maxTimestamp ≤ store'.maxTimestamp := by
  unfold maxTimestamp
  rw [max?_timestamp_le_iff]
  intro k v hv
  obtain ⟨w, hw, hbehind⟩ := h.exists_get (k := k) (Or.inl (mem_iter.mp hv).symm)
  calc
    v.timestamp ≤ w.timestamp :=
      LwwValue.timestamp_le_of_stamp_le (WithBot.coe_le_coe.mp hbehind.stamp_le)
    _ ≤ (store'.state.iter.map fun entry => entry.2.timestamp).max?.getD 0 :=
      max?_timestamp_le_iff.mp le_rfl k w (mem_iter.mpr hw)

theorem Precedes.len_le (h : store.Precedes store') : store.len ≤ store'.len := by
  have hsub : store.state.keys ⊆ store'.state.keys := by
    intro k hk
    rw [← AList.mem_keys, ← AList.lookup_isSome] at hk ⊢
    obtain ⟨v, hv⟩ := Option.isSome_iff_exists.mp hk
    obtain ⟨w, hw, _⟩ := h.exists_get (k := k) (Or.inl hv.symm)
    exact Option.isSome_iff_exists.mpr ⟨w, hw⟩
  have hle := (List.subperm_of_subset store.state.keys_nodup hsub).length_le
  simpa [AList.keys, List.keys, len] using hle

end StateStore

namespace Operation

variable {store : StateStore} {op : Operation} {k : String} {v : LwwValue}

theorem Shows.get_apply (h : op.Shows (store.apply op).2 k v) :
    (store.apply op).1.get k = some v := by
  cases op with
  | update op =>
      cases op with
      | set now key value =>
          obtain ⟨rfl, rfl⟩ := h
          exact (StateStore.some_snd_set store now k value).symm
      | mergeDelta delta => exact h.elim
  | query query =>
      cases query with
      | get key =>
          obtain ⟨rfl, hentry⟩ := h
          exact hentry
      | snapshot => exact mem_iter.mp h
      | deltaSince since => exact (mem_deltaSince.mp h).1
      | maxTimestamp => exact h.elim
      | len => exact h.elim
      | isEmpty => exact h.elim

/-- A call that takes effect when the key holds the entry or a newer one answers accordingly. -/
theorem accounts_apply (op : Operation) (h : Behind LwwValue.stamp (some v) (store.get k)) :
    op.Accounts (store.apply op).2 k v := by
  obtain ⟨w, hw, hbehind⟩ : ∃ w, store.get k = some w ∧ Behind LwwValue.stamp (some v) (some w) :=
    StateStore.Precedes.exists_get (fun _ => Behind.refl _) h
  have hle : v.stamp ≤ w.stamp := WithBot.coe_le_coe.mp hbehind.stamp_le
  have hentry : (k, w) ∈ store.state.iter := mem_iter.mpr hw
  cases op with
  | update op =>
      cases op with
      | set now key value =>
          rintro rfl
          rw [StateStore.some_snd_set]
          exact h.trans (store.precedes_apply (.update (.set now k value)) k)
      | mergeDelta delta =>
          intro hk
          have hlt := stampAt_lt_of_mem_mergeLocked hk
          obtain hsame | ⟨u, hu, hlookup, hlt⟩ :=
            offers_cases LwwValue.stamp (store.get k) (valuesFor delta k)
          · unfold StateMap.stampAt at hlt
            rw [lookup_mergeLocked] at hlt
            rw [StateStore.get] at hsame
            rw [hsame] at hlt
            exact absurd hlt (lt_irrefl _)
          · rw [hw, stampOf_some, WithBot.coe_lt_coe] at hlt
            exact ⟨u, mem_valuesFor.mp hu, hle.trans_lt hlt⟩
  | query query =>
      cases query with
      | get key =>
          rintro rfl
          exact h
      | snapshot => exact ⟨w, hentry, hbehind⟩
      | deltaSince since =>
          intro hsince
          refine ⟨w, mem_deltaSince.mpr ⟨hw, ?_⟩, hbehind⟩
          exact hsince.trans_le (LwwValue.timestamp_le_of_stamp_le hle)
      | maxTimestamp =>
          calc
            v.timestamp ≤ w.timestamp := LwwValue.timestamp_le_of_stamp_le hle
            _ ≤ store.maxTimestamp := max?_timestamp_le_iff.mp le_rfl k w hentry
      | len =>
          have hne : store.state.entries ≠ [] := by
            simpa [StateMap.iter] using List.ne_nil_of_mem hentry
          exact List.length_pos_iff.mpr hne
      | isEmpty =>
          have hne : store.state.entries ≠ [] := by
            simpa [StateMap.iter] using List.ne_nil_of_mem hentry
          exact List.isEmpty_eq_false_iff.mpr hne

end Operation

namespace SharedStore

variable {nodeId : String} {pre post : List SharedAction} {mid final : SharedStore} {j k : ℕ ⊕ ℕ}
  {first second : Operation} {seen answer : Answer}

/-- The second call takes effect in a store that the first has already left its mark on. -/
theorem exists_stores (hpre : Machine.run SharedStore.step (SharedStore.new nodeId) pre = some mid)
    (hpost : Machine.run SharedStore.step mid post = some final)
    (hj : mid.calls j = some { op := first, phase := .returned seen }) (hnew : mid.calls k = none)
    (hk : final.calls k = some { op := second, phase := .returned answer }) :
    ∃ u v : StateStore, seen = (u.apply first).2 ∧ answer = (v.apply second).2
      ∧ (u.apply first).1.Precedes v := by
  have hrun : Machine.run SharedStore.step (SharedStore.new nodeId) (pre ++ post) = some final :=
    Machine.run_append_eq_some.mpr ⟨mid, hpre, hpost⟩
  obtain ⟨order, hlin, hreal⟩ := implements.linearizable (stamped_new nodeId)
    (calls_new nodeId) hrun
  have horder := hreal pre post mid rfl hpre j k ⟨first, seen, hj⟩ hnew
    (hlin.complete k _ hk rfl)
  have hj := implements.run_returned (implements.run_invariant (stamped_new nodeId) hpre) hpost hj
  obtain ⟨u, v, call, call', hcall, hcall', hresult, hresult', hprecedes⟩ :=
    hlin.legal.exists_states (R := StateStore.Precedes) (fun _ _ => Behind.refl _)
      (fun _ _ _ h h' k => (h k).trans (h' k)) StateStore.precedes_apply horder
  obtain rfl := Option.some.inj (hcall.symm.trans hj)
  obtain rfl := Option.some.inj (hcall'.symm.trans hk)
  exact ⟨u, v, Option.some.inj hresult, Option.some.inj hresult', hprecedes⟩

/-- **A caller never sees the store go back.** Of a call that has returned when another is made, the
second accounts for every entry the first has shown, and for one at least as new as each entry the
first has merged, whatever the two calls are and whoever made them; and the greatest timestamp and
the number of keys do not decrease from one to the other. -/
theorem later_call_accounts
    (hpre : Machine.run SharedStore.step (SharedStore.new nodeId) pre = some mid)
    (hpost : Machine.run SharedStore.step mid post = some final)
    (hj : mid.calls j = some { op := first, phase := .returned seen }) (hnew : mid.calls k = none)
    (hk : final.calls k = some { op := second, phase := .returned answer }) :
    (∀ key v, first.Shows seen key v → second.Accounts answer key v)
      ∧ (∀ delta, first = .update (.mergeDelta delta) → ∀ key v, (key, v) ∈ delta →
          ∃ w, v.stamp ≤ w.stamp ∧ second.Accounts answer key w)
      ∧ ∀ query n, query = .maxTimestamp ∨ query = .len → first = .query query →
          seen = .number n → second = .query query → ∃ m, answer = .number m ∧ n ≤ m := by
  obtain ⟨u, v, rfl, rfl, hprecedes⟩ := exists_stores hpre hpost hj hnew hk
  refine ⟨?_, ?_, ?_⟩
  · intro key w hshows
    apply second.accounts_apply
    rw [← hshows.get_apply]
    exact hprecedes key
  · rintro delta rfl key w hw
    have hle : (w.stamp : WithBot (ℕ ×ₗ String))
        ≤ stampOf LwwValue.stamp ((u.mergeDelta delta).1.get key) :=
      StateStore.dominates_mergeDelta u hw
    cases hget : (u.mergeDelta delta).1.get key with
    | none => simp [hget] at hle
    | some x =>
        rw [hget, stampOf_some, WithBot.coe_le_coe] at hle
        refine ⟨x, hle, second.accounts_apply ?_⟩
        rw [← hget]
        exact hprecedes key
  · rintro query n (rfl | rfl) rfl hseen rfl
    · obtain rfl := Answer.number.inj hseen
      exact ⟨v.maxTimestamp, rfl, hprecedes.maxTimestamp_le⟩
    · obtain rfl := Answer.number.inj hseen
      exact ⟨v.len, rfl, hprecedes.len_le⟩

theorem later_call_accounts_set_get :
    ∃ mid final, Machine.run SharedStore.step (SharedStore.new "node-a")
        [.store (.callSet "k" "a" 5), .store (.advance 0), .store (.advance 0)] = some mid
      ∧ Machine.run SharedStore.step mid
        [.callQuery (.get "k"), .store (.callSet "k" "b" 6), .store (.advance 1), .read 0,
          .returnAnswer 0] = some final
      ∧ (Operation.query (.get "k")).Accounts
        (.entry (some { value := "b", timestamp := 6, nodeId := "node-a" })) "k"
        { value := "a", timestamp := 5, nodeId := "node-a" } := by
  have hruns : (Machine.run SharedStore.step (SharedStore.new "node-a")
      [.store (.callSet "k" "a" 5), .store (.advance 0), .store (.advance 0)]).any (fun mid =>
        decide (mid.calls (.inl 0) = some
            { op := .update (.set 5 "k" "a")
              phase := .returned (.winner { value := "a", timestamp := 5, nodeId := "node-a" }) })
        && decide (mid.calls (.inr 0) = none)
        && (Machine.run SharedStore.step mid
          [.callQuery (.get "k"), .store (.callSet "k" "b" 6), .store (.advance 1), .read 0,
            .returnAnswer 0]).any (fun final =>
              decide (final.calls (.inr 0) = some
                { op := .query (.get "k")
                  phase := .returned (.entry (some
                    { value := "b", timestamp := 6, nodeId := "node-a" })) }))) = true := by
    decide
  obtain ⟨mid, hmid, hfacts⟩ := Machine.exists_of_any_run hruns
  rw [Bool.and_eq_true, Bool.and_eq_true] at hfacts
  obtain ⟨⟨hj, hnew⟩, hfinal⟩ := hfacts
  obtain ⟨final, hfinal, hk⟩ := Machine.exists_of_any_run hfinal
  have haccounts := later_call_accounts hmid hfinal (of_decide_eq_true hj) (of_decide_eq_true hnew)
    (of_decide_eq_true hk)
  exact ⟨mid, final, hmid, hfinal, haccounts.1 "k" _ ⟨rfl, rfl⟩⟩

end SharedStore

end StateSync
