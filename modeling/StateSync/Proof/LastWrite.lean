import StateSync.Proof.History
import Mathlib.Data.List.Induction

/-!
# One node, one writer

A fresh store, a sequence of `set` calls one after the other, a clock that never goes back. `merge`
keeps its first argument on a tie, and `set` passes the stored entry first, so of several calls on a
key within one microsecond the first one stays. The last write wins exactly when no two calls on a
key with one clock reading disagree about the value.
-/

namespace StateSync

open Register

structure SetCall where
  now : Nat
  key : String
  value : String
deriving DecidableEq, Repr

def setNext (acc : StateStore × List LwwValue) (call : SetCall) : StateStore × List LwwValue :=
  let (store, winner, _) := acc.1.set call.now call.key call.value
  (store, acc.2 ++ [winner])

def setAll (store : StateStore) (calls : List SetCall) : StateStore × List LwwValue :=
  calls.foldl setNext (store, [])

/-- Every key that was set holds the value of the last call on it, and every call returned the value
it was given. -/
def LastWriteWins (nodeId : String) (calls : List SetCall) : Prop :=
  (∀ k call, (calls.filter fun c => c.key = k).getLast? = some call →
    ((setAll (StateStore.new nodeId) calls).1.get k).map LwwValue.value = some call.value)
    ∧ (setAll (StateStore.new nodeId) calls).2.map LwwValue.value = calls.map SetCall.value

/-- Two calls on one key with one clock reading carry one value. -/
def Agree (c d : SetCall) : Prop := c.key = d.key → c.now = d.now → c.value = d.value

instance (c d : SetCall) : Decidable (Agree c d) :=
  inferInstanceAs (Decidable (c.key = d.key → c.now = d.now → c.value = d.value))

instance : Std.Symm Agree where
  symm _ _ h hkey hnow := (h hkey.symm hnow.symm).symm

theorem lastWriteWins_tie :
    ([⟨5, "k", "first"⟩, ⟨5, "k", "second"⟩] : List SetCall).Pairwise (fun c d => c.now ≤ d.now)
      ∧ ¬ LastWriteWins "node-a" [⟨5, "k", "first"⟩, ⟨5, "k", "second"⟩] := by
  refine ⟨by decide, ?_⟩
  intro h
  exact absurd h.2 (by decide)

/-! ### The store after the calls -/

variable {nodeId : String} {calls : List SetCall} {call : SetCall}

def callValues (nodeId : String) (calls : List SetCall) (k : String) : List LwwValue :=
  (calls.filter fun c => c.key = k).map fun c => LwwValue.new c.value nodeId c.now

theorem mem_callValues {k : String} {v : LwwValue} :
    v ∈ callValues nodeId calls k ↔
      ∃ c ∈ calls, c.key = k ∧ v = LwwValue.new c.value nodeId c.now := by
  simp only [callValues, List.mem_map, List.mem_filter, decide_eq_true_eq]
  constructor
  · rintro ⟨c, ⟨hc, hkey⟩, rfl⟩
    exact ⟨c, hc, hkey, rfl⟩
  · rintro ⟨c, hc, hkey, rfl⟩
    exact ⟨c, ⟨hc, hkey⟩, rfl⟩

theorem setAll_append_singleton (store : StateStore) (calls : List SetCall) (call : SetCall) :
    setAll store (calls ++ [call]) = setNext (setAll store calls) call := by
  simp [setAll]

theorem setNext_get_self (acc : StateStore × List LwwValue) (call : SetCall) :
    (setNext acc call).1.get call.key = offer LwwValue.stamp (acc.1.get call.key)
      (LwwValue.new call.value acc.1.nodeId call.now) :=
  lookup_setLocked_self _ _ _

theorem setNext_get_of_ne {acc : StateStore × List LwwValue} {k : String} (hne : k ≠ call.key) :
    (setNext acc call).1.get k = acc.1.get k :=
  lookup_setLocked_of_ne hne

theorem setNext_returned (acc : StateStore × List LwwValue) (call : SetCall) :
    ∃ winner, (setNext acc call).2 = acc.2 ++ [winner]
      ∧ (setNext acc call).1.get call.key = some winner :=
  ⟨_, rfl, (some_snd_setLocked _ _ _).symm⟩

def SetCall.op (call : SetCall) : StoreOp := .set call.now call.key call.value

theorem fst_setAll (store : StateStore) (calls : List SetCall) :
    (setAll store calls).1 = store.performAll (calls.map SetCall.op) := by
  induction calls using List.reverseRecOn with
  | nil => rfl
  | append_singleton calls call ih =>
      rw [setAll_append_singleton, List.map_append, List.map_singleton,
        StateStore.performAll_concat, ← ih]
      rfl

theorem setAll_nodeId (nodeId : String) (calls : List SetCall) :
    (setAll (StateStore.new nodeId) calls).1.nodeId = nodeId := by
  rw [fst_setAll, StateStore.nodeId_performAll]
  rfl

theorem valuesFor_history_op (nodeId : String) (calls : List SetCall) (k : String) :
    valuesFor (history nodeId (calls.map SetCall.op)) k = callValues nodeId calls k := by
  have hhistory : history nodeId (calls.map SetCall.op)
      = calls.map fun c => (c.key, LwwValue.new c.value nodeId c.now) := by
    rw [history, List.flatMap_map, List.map_eq_flatMap]
    rfl
  rw [hhistory]
  simp [valuesFor, callValues, List.filter_map, Function.comp_def]

theorem setAll_get (nodeId : String) (calls : List SetCall) (k : String) :
    (setAll (StateStore.new nodeId) calls).1.get k
      = offers LwwValue.stamp none (callValues nodeId calls k) := by
  rw [fst_setAll, StateStore.get_performAll_new, valuesFor_history_op]

/-- What a call finds: nothing newer than itself, and if it finds its own stamp, the value of an
earlier call on its key with its clock reading. -/
theorem setAll_get_cases (nodeId : String) (hclock : ∀ c ∈ calls, c.now ≤ call.now) :
    ((setAll (StateStore.new nodeId) calls).1.state.stampAt call.key
        < (LwwValue.new call.value nodeId call.now).stamp
      ∧ ∀ c ∈ calls, c.key = call.key → c.now ≠ call.now) ∨
    ∃ c ∈ calls, c.key = call.key ∧ c.now = call.now
      ∧ (setAll (StateStore.new nodeId) calls).1.get call.key
          = some (LwwValue.new c.value nodeId c.now) := by
  have hget := setAll_get nodeId calls call.key
  have hstamp : (setAll (StateStore.new nodeId) calls).1.state.stampAt call.key
      = stampOf LwwValue.stamp (offers LwwValue.stamp none (callValues nodeId calls call.key)) :=
    congrArg (stampOf LwwValue.stamp) hget
  rcases offers_cases LwwValue.stamp none (callValues nodeId calls call.key) with
    hnone | ⟨v, hv, hsome, _⟩
  · left
    rw [hstamp, hnone]
    refine ⟨WithBot.bot_lt_coe _, ?_⟩
    intro c hc hkey _
    have hmem : LwwValue.new c.value nodeId c.now ∈ callValues nodeId calls call.key :=
      mem_callValues.mpr ⟨c, hc, hkey, rfl⟩
    rw [offers_eq_none_iff.mp hnone] at hmem
    exact absurd hmem List.not_mem_nil
  · obtain ⟨c, hc, hkey, rfl⟩ := mem_callValues.mp hv
    by_cases hnow : c.now = call.now
    · exact Or.inr ⟨c, hc, hkey, hnow, hget.trans hsome⟩
    · left
      have hlt : c.now < call.now := lt_of_le_of_ne (hclock c hc) hnow
      rw [hstamp, hsome]
      refine ⟨WithBot.coe_lt_coe.mpr (LwwValue.stamp_lt_iff.mpr (Or.inl hlt)), ?_⟩
      intro d hd hdkey hdnow
      have hmem : LwwValue.new d.value nodeId d.now ∈ callValues nodeId calls call.key :=
        mem_callValues.mpr ⟨d, hd, hdkey, rfl⟩
      have hle := stamp_le_offers LwwValue.stamp none hmem
      rw [hsome, stampOf_some, WithBot.coe_le_coe] at hle
      have := LwwValue.timestamp_le_of_stamp_le hle
      simp only [LwwValue.new] at this
      omega

theorem setNext_value_iff (nodeId : String) (hclock : ∀ c ∈ calls, c.now ≤ call.now)
    (hagree : calls.Pairwise Agree) :
    ((setNext (setAll (StateStore.new nodeId) calls) call).1.get call.key).map LwwValue.value
        = some call.value ↔ ∀ c ∈ calls, Agree c call := by
  have hget := setNext_get_self (setAll (StateStore.new nodeId) calls) call
  rw [setAll_nodeId] at hget
  rcases setAll_get_cases nodeId hclock with ⟨hlt, hfresh⟩ | ⟨c, hc, hkey, hnow, hold⟩
  · -- the call is strictly newer than what it finds
    have hwins : offer LwwValue.stamp ((setAll (StateStore.new nodeId) calls).1.get call.key)
        (LwwValue.new call.value nodeId call.now)
          = some (LwwValue.new call.value nodeId call.now) :=
      offer_of_behind (Or.inr hlt)
    rw [hget, hwins]
    apply iff_of_true rfl
    intro c hc hkey hnow
    exact absurd hnow (hfresh c hc hkey)
  · -- the call ties with an earlier one, whose value stays
    have hloses : offer LwwValue.stamp ((setAll (StateStore.new nodeId) calls).1.get call.key)
        (LwwValue.new call.value nodeId call.now) = some (LwwValue.new c.value nodeId c.now) := by
      rw [hold]
      refine offer_of_stamp_le (WithBot.coe_le_coe.mpr (LwwValue.stamp_le_iff.mpr (Or.inr ?_)))
      exact ⟨hnow.symm, le_rfl⟩
    rw [hget, hloses]
    have hcall : ∀ d ∈ calls, Agree d c := fun d hd =>
      hagree.forall_of_forall (fun _ _ _ _ => rfl) hd hc
    constructor
    · intro hvalue d hd hdkey hdnow
      have hdc : d.value = c.value := hcall d hd (hdkey.trans hkey.symm) (hdnow.trans hnow.symm)
      exact hdc.trans (Option.some.inj hvalue)
    · intro hall
      exact congrArg some (hall c hc hkey hnow)

theorem returned_iff (hclock : calls.Pairwise fun c d => c.now ≤ d.now) :
    (setAll (StateStore.new nodeId) calls).2.map LwwValue.value = calls.map SetCall.value ↔
      calls.Pairwise Agree := by
  induction calls using List.reverseRecOn with
  | nil => exact iff_of_true rfl List.Pairwise.nil
  | append_singleton calls call ih =>
      rw [List.pairwise_append] at hclock
      obtain ⟨hcalls, _, hlast⟩ := hclock
      have hlast : ∀ c ∈ calls, c.now ≤ call.now := fun c hc => hlast c hc call (by simp)
      obtain ⟨winner, hreturned, hget⟩ :=
        setNext_returned (setAll (StateStore.new nodeId) calls) call
      have hsplit : (setAll (StateStore.new nodeId) (calls ++ [call])).2.map LwwValue.value
            = (calls ++ [call]).map SetCall.value ↔
          (setAll (StateStore.new nodeId) calls).2.map LwwValue.value = calls.map SetCall.value
            ∧ winner.value = call.value := by
        rw [setAll_append_singleton, hreturned, List.map_append, List.map_append]
        simp only [List.map_cons, List.map_nil]
        exact List.append_singleton_inj
      rw [hsplit, ih hcalls, List.pairwise_append]
      have hwinner : calls.Pairwise Agree →
          (winner.value = call.value ↔ ∀ c ∈ calls, Agree c call) := by
        intro hagree
        have hvalue := setNext_value_iff nodeId hlast hagree
        rw [hget] at hvalue
        simpa using hvalue
      constructor
      · rintro ⟨hagree, hvalue⟩
        exact ⟨hagree, List.pairwise_singleton _ _, by simpa using (hwinner hagree).mp hvalue⟩
      · rintro ⟨hagree, _, hall⟩
        exact ⟨hagree, (hwinner hagree).mpr (by simpa using hall)⟩

theorem last_value_of_agree (hclock : calls.Pairwise fun c d => c.now ≤ d.now)
    (hagree : calls.Pairwise Agree) {k : String} {last : SetCall}
    (hlast : (calls.filter fun c => c.key = k).getLast? = some last) :
    ((setAll (StateStore.new nodeId) calls).1.get k).map LwwValue.value = some last.value := by
  induction calls using List.reverseRecOn with
  | nil => simp at hlast
  | append_singleton calls call ih =>
      rw [List.pairwise_append] at hclock hagree
      obtain ⟨hcalls, _, hnow⟩ := hclock
      obtain ⟨hagree, _, hall⟩ := hagree
      rw [setAll_append_singleton]
      by_cases hk : call.key = k
      · subst hk
        obtain rfl : call = last := by simpa using hlast
        exact (setNext_value_iff nodeId (fun c hc => hnow c hc call (by simp)) hagree).mpr
          fun c hc => hall c hc call (by simp)
      · rw [setNext_get_of_ne (Ne.symm hk)]
        exact ih hcalls hagree (by simpa [hk] using hlast)

/-- **When the last write wins.** Exactly when no two calls on one key with one clock reading carry
different values. -/
theorem lastWriteWins_iff (nodeId : String) {calls : List SetCall}
    (hclock : calls.Pairwise fun c d => c.now ≤ d.now) :
    LastWriteWins nodeId calls ↔ calls.Pairwise Agree := by
  constructor
  · intro h
    exact (returned_iff hclock).mp h.2
  · intro hagree
    exact ⟨fun k last hlast => last_value_of_agree hclock hagree hlast,
      (returned_iff hclock).mpr hagree⟩

theorem lastWriteWins_three_calls :
    LastWriteWins "node-a" [⟨5, "k", "v"⟩, ⟨5, "other", "w"⟩, ⟨6, "k", "w"⟩] :=
  (lastWriteWins_iff "node-a" (by decide)).mpr (by decide)

end StateSync
