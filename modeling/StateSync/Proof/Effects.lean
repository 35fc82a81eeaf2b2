import StateSync.Proof.Dispatch
import StateSync.Proof.History

/-!
# What a request changes

Of all methods only `state.set` writes, and it has read both its parameters by then. Whether a
request is a notification is looked at after it was carried out, and decides about the answer only.
-/

namespace StateSync

/-- A well-formed `state.set`. -/
structure RpcRequest.Sets (req : RpcRequest) (key value : String) : Prop where
  method : req.method = "state.set"
  keyParam : req.params.get "key" = some (.string key)
  valueParam : req.params.get "value" = some (.string value)

/-- The entry of a key after an incoming one was merged with it. -/
def mergedWith (old : Option LwwValue) (incoming : LwwValue) : LwwValue :=
  match old with
  | none => incoming
  | some existing => LwwValue.merge existing incoming

/-- The one effect a request can have: the entry of the key is merged with a new one, and the result
is broadcast once. -/
structure Writes (now : Nat) (key value : String) (handler handler' : RpcHandler)
    (winner : LwwValue) : Prop where
  merged : winner = mergedWith (handler.store.get key)
    (LwwValue.new value handler.store.nodeId now)
  entry : handler'.store.get key = some winner
  others : ∀ k ≠ key, handler'.store.get k = handler.store.get k
  nodeId : handler'.store.nodeId = handler.store.nodeId
  peers : handler'.peers = handler.peers
  events : handler'.events = handler.events.send [{ key := key, value := winner }]

theorem StateStore.snd_set_eq (store : StateStore) (now : Nat) (key value : String) :
    (store.set now key value).2.1
      = mergedWith (store.get key) (LwwValue.new value store.nodeId now) := by
  unfold StateStore.set StateStore.get setLocked mergedWith
  cases store.state.lookup key with
  | none => exact LwwValue.merge_self _
  | some existing => rfl

theorem requiredStr_eq_ok_iff {params id : Value} {field s : String} :
    requiredStr params field id = .ok s ↔ params.get field = some (.string s) := by
  unfold requiredStr
  cases hget : params.get field with
  | none => simp
  | some v => cases v <;> simp [Value.asStr]

namespace RpcHandler

variable {fromStr : String → Except String RpcRequest} {now : Nat} {lastSeenSecs : String → Nat}
  {handler : RpcHandler} {raw : String} {req : RpcRequest} {key value : String}

theorem writes_set (now : Nat) (key value : String) (handler : RpcHandler) :
    Writes now key value handler
      { handler with
        store := (handler.store.set now key value).1
        events := handler.events.send [(handler.store.set now key value).2.2] }
      (handler.store.set now key value).2.1 where
  merged := handler.store.snd_set_eq now key value
  entry := (handler.store.some_snd_set now key value).symm
  others := fun _ hk => lookup_setLocked_of_ne hk
  nodeId := rfl
  peers := rfl
  events := rfl

/-! ### `state.set` -/

theorem handleStateSet_of_sets (h : req.Sets key value) (id : Value) :
    handler.handleStateSet now req.params id =
      ({ handler with
          store := (handler.store.set now key value).1
          events := handler.events.send [(handler.store.set now key value).2.2] },
        .response (RpcResponse.ok
          (.object [("timestamp", .ofNat (handler.store.set now key value).2.1.timestamp),
            ("node_id", .string (handler.store.set now key value).2.1.nodeId)]) id)) := by
  have hkey := (@requiredStr_eq_ok_iff req.params id "key" key).mpr h.keyParam
  have hvalue := (@requiredStr_eq_ok_iff req.params id "value" value).mpr h.valueParam
  unfold handleStateSet
  rw [hkey]
  simp only [hvalue]

theorem handleStateSet_of_not_sets (hmethod : req.method = "state.set")
    (h : ∀ key value, ¬ req.Sets key value) (id : Value) :
    (handler.handleStateSet now req.params id).1 = handler := by
  unfold handleStateSet
  cases hkey : requiredStr req.params "key" id with
  | error e => rfl
  | ok key =>
      cases hvalue : requiredStr req.params "value" id with
      | error e => rfl
      | ok value =>
          -- both are strings, so the request is one that sets
          have hsets : req.Sets key value :=
            ⟨hmethod, requiredStr_eq_ok_iff.mp hkey, requiredStr_eq_ok_iff.mp hvalue⟩
          exact absurd hsets (h key value)

/-! ### Every request -/

theorem answer_of_not_sets (h : ∀ key value, ¬ req.Sets key value) (id : Value) :
    (handler.answer now lastSeenSecs req id).1 = handler := by
  unfold answer
  split
  · rfl
  · exact handleStateSet_of_not_sets ‹_› h id
  all_goals rfl

theorem dispatch_of_sets (hreq : fromStr raw = .ok req) (h : req.Sets key value) :
    ∃ winner, Writes now key value handler (handler.dispatch fromStr now lastSeenSecs raw).1 winner
      ∧ (handler.dispatch fromStr now lastSeenSecs raw).2
        = if req.id.isNone then .notification
          else .response (.response (RpcResponse.ok
            (.object [("timestamp", .ofNat winner.timestamp), ("node_id", .string winner.nodeId)])
            (req.id.getD .null))) := by
  have hne : req.method ≠ "state.subscribe" := by simp [h.method]
  have hanswer : handler.answer now lastSeenSecs req (req.id.getD .null)
      = handler.handleStateSet now req.params (req.id.getD .null) := by
    simp [answer, h.method]
  rw [dispatch_eq hreq, if_neg hne, hanswer, handleStateSet_of_sets h]
  exact ⟨_, writes_set now key value handler, rfl⟩

theorem dispatch_of_not_sets
    (h : ∀ req key value, fromStr raw = .ok req → ¬ req.Sets key value) :
    (handler.dispatch fromStr now lastSeenSecs raw).1 = handler := by
  cases hreq : fromStr raw with
  | error e => rw [dispatch_error hreq]
  | ok req =>
      rw [dispatch_eq hreq]
      split
      · rfl
      · exact answer_of_not_sets (fun key value => h req key value hreq) _

theorem dispatch_of_error {err : RpcError}
    (herr : .error err ∈ (handler.dispatch fromStr now lastSeenSecs raw).2.replies) :
    (handler.dispatch fromStr now lastSeenSecs raw).1 = handler := by
  apply dispatch_of_not_sets
  intro req key value hreq hsets
  obtain ⟨winner, _, hresult⟩ := @dispatch_of_sets _ now lastSeenSecs handler _ _ _ _ hreq hsets
  rw [hresult] at herr
  split at herr
  · simp [DispatchResult.replies] at herr
  · simp [DispatchResult.replies] at herr

/-- **Only a well-formed `state.set` has effects.** Any other line leaves the store, the peer table
and the broadcast channel as they are, in particular one that is answered with an error. A
well-formed `state.set` merges one entry and broadcasts the result, with or without an id, and the
answer shows the stamp of that entry. -/
theorem dispatch_effects (fromStr : String → Except String RpcRequest) (now : Nat)
    (lastSeenSecs : String → Nat) (handler : RpcHandler) (raw : String) :
    ((∀ req key value, fromStr raw = .ok req → ¬ req.Sets key value) →
        (handler.dispatch fromStr now lastSeenSecs raw).1 = handler)
      ∧ (∀ req key value, fromStr raw = .ok req → req.Sets key value → ∃ winner,
          Writes now key value handler (handler.dispatch fromStr now lastSeenSecs raw).1 winner
          ∧ (handler.dispatch fromStr now lastSeenSecs raw).2
            = if req.id.isNone then .notification
              else .response (.response (RpcResponse.ok (.object
                [("timestamp", .ofNat winner.timestamp), ("node_id", .string winner.nodeId)])
                (req.id.getD .null))))
      ∧ ∀ err, .error err ∈ (handler.dispatch fromStr now lastSeenSecs raw).2.replies →
          (handler.dispatch fromStr now lastSeenSecs raw).1 = handler := by
  refine ⟨dispatch_of_not_sets, ?_, fun err => dispatch_of_error⟩
  intro req key value hreq hsets
  exact dispatch_of_sets hreq hsets

end RpcHandler

end StateSync
