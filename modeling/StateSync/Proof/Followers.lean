import StateSync.Proof.Connections
import StateSync.Proof.Mirror

/-!
# A client that follows the store

What the notifications and `sync.delta` are there for: a client keeps a copy of the map, folds every
update and every delta into it, and asks for a delta when it has subscribed and whenever it is told
that it missed something. Here is what each line of the server means to it, and what a step of a
connection can be as far as it is concerned.
-/

namespace StateSync

open Register Broadcast

def Value.asEntry (v : Value) : Option (String × LwwValue) := do
  let key ← (v.get "key").bind asStr
  let value ← (v.get "value").bind asStr
  let timestamp ← (v.get "timestamp").bind asU64
  let nodeId ← (v.get "node_id").bind asStr
  some (key, { value := value, timestamp := timestamp, nodeId := nodeId })

/-- The entries a line shows: the one of an update or of the answer to `state.get`, and those of a
delta. -/
def Outgoing.entries : Outgoing → StateDelta
  | .notification n => n.params.asEntry.toList
  | .response r =>
      r.result.asEntry.toList ++ match r.result.get "entries" with
        | some (.array items) => items.filterMap Value.asEntry
        | _ => []
  | .error _ => []

/-- The copy of a client, which is stale from a subscription or a lag on until the next delta. -/
structure Follower where
  mirror : StateMap
  stale : Bool

namespace Follower

def new : Follower := { mirror := ∅, stale := true }

def fold (follower : Follower) (entries : StateDelta) : StateMap :=
  (entries.map fun entry => StateEvent.mk entry.1 entry.2).foldl mirrorEvent follower.mirror

def receive (follower : Follower) : Outgoing → Follower
  | .notification n =>
      if n.method = "state.update" then
        { follower with mirror := follower.fold n.params.asEntry.toList }
      else { follower with stale := true }
  | .response r =>
      match r.result.get "entries" with
      | some (.array items) =>
          { mirror := follower.fold (items.filterMap Value.asEntry), stale := false }
      | _ => if (r.result.get "status").isSome then { follower with stale := true } else follower
  | .error _ => follower

/-- A client that has received these lines. -/
def after (lines : List Outgoing) : Follower := lines.foldl receive new

theorem after_concat (lines : List Outgoing) (line : Outgoing) :
    after (lines ++ [line]) = (after lines).receive line := by
  simp [after]

theorem lookup_fold (follower : Follower) (entries : StateDelta) (k : String) :
    (follower.fold entries).lookup k
      = offers LwwValue.stamp (follower.mirror.lookup k) (valuesFor entries k) := by
  rw [fold, lookup_foldl_mirrorEvent, eventValues_snapshot]

/-- Every entry of a copy was shown by a line. -/
theorem lookup_receive {follower : Follower} {line : Outgoing} {k : String} {v : LwwValue}
    (hv : (follower.receive line).mirror.lookup k = some v) :
    follower.mirror.lookup k = some v ∨ (k, v) ∈ line.entries := by
  have hfold {entries : StateDelta} (hv : (follower.fold entries).lookup k = some v) :
      follower.mirror.lookup k = some v ∨ (k, v) ∈ entries := by
    rw [lookup_fold] at hv
    obtain hsame | ⟨w, hw, hlast, _⟩ :=
      offers_cases LwwValue.stamp (follower.mirror.lookup k) (valuesFor entries k)
    · exact Or.inl (hsame ▸ hv)
    · obtain rfl := Option.some.inj (hv.symm.trans hlast)
      exact Or.inr (mem_valuesFor.mp hw)
  cases line with
  | error e => exact Or.inl hv
  | notification n =>
      simp only [receive] at hv
      split at hv
      · exact hfold hv
      · exact Or.inl hv
  | response r =>
      simp only [receive] at hv
      split at hv
      · rename_i items hitems
        refine (hfold hv).imp id fun hmem => ?_
        simp only [Outgoing.entries, hitems]
        exact List.mem_append_right _ hmem
      · split at hv <;> exact Or.inl hv

theorem exists_line_of_after {received : List Outgoing} {k : String} {v : LwwValue}
    (hv : (after received).mirror.lookup k = some v) :
    ∃ line ∈ received, (k, v) ∈ line.entries := by
  induction received using List.reverseRecOn with
  | nil => simp [after, new] at hv
  | append_singleton received line ih =>
      rw [after_concat] at hv
      obtain hold | hnew := lookup_receive hv
      · obtain ⟨shown, hmem, hentry⟩ := ih hold
        exact ⟨shown, List.mem_append_left _ hmem, hentry⟩
      · exact ⟨line, List.mem_append_right _ (List.mem_singleton_self line), hnew⟩

/-! ### The lines of the server -/

theorem asEntry_ofEntry (key : String) (v : LwwValue) :
    (Value.ofEntry key v).asEntry = some (key, v) := rfl

theorem receive_stateUpdate (follower : Follower) (key : String) (v : LwwValue) :
    follower.receive (.notification (.stateUpdate key v))
      = { follower with mirror := follower.fold [(key, v)] } := rfl

theorem receive_lag (follower : Follower) (n : Nat) :
    follower.receive (.notification (.lag n)) = { follower with stale := true } := rfl

theorem receive_subscribed (follower : Follower) (subPrefix : Option String) (id : Value) :
    follower.receive (.response (RpcResponse.ok
      (.object [("status", .string "subscribed"), ("prefix", .ofOption subPrefix)]) id))
      = { follower with stale := true } := rfl

theorem receive_syncDelta (follower : Follower) (handler : RpcHandler) (params id : Value) :
    follower.receive (handler.handleSyncDelta params id)
      = { mirror := follower.fold
            (handler.store.deltaSince (((params.get "since").bind Value.asU64).getD 0))
          stale := false } := by
  have hentries (delta : StateDelta) :
      (delta.map fun entry => Value.ofEntry entry.1 entry.2).filterMap Value.asEntry = delta := by
    simp [List.filterMap_map, Function.comp_def, asEntry_ofEntry]
  simp only [RpcHandler.handleSyncDelta, receive, RpcResponse.ok, Value.get, List.lookup_cons_self,
    hentries]

theorem entries_syncDelta (handler : RpcHandler) (params id : Value) :
    (handler.handleSyncDelta params id).entries
      = handler.store.deltaSince (((params.get "since").bind Value.asU64).getD 0) := by
  have hentries (delta : StateDelta) :
      (delta.map fun entry => Value.ofEntry entry.1 entry.2).filterMap Value.asEntry = delta := by
    simp [List.filterMap_map, Function.comp_def, asEntry_ofEntry]
  exact hentries _

theorem receive_stateGet (follower : Follower) (handler : RpcHandler) (params id : Value) :
    follower.receive (handler.handleStateGet params id) = follower := by
  unfold RpcHandler.handleStateGet
  obtain ⟨key, hkey, _⟩ | ⟨message, hkey, _⟩ := RpcHandler.requiredStr_cases params "key" id
  · rw [hkey]
    simp only
    cases handler.store.get key with
    | none => rfl
    | some v => rfl
  · rw [hkey]
    rfl

theorem receive_stateSet (follower : Follower) (handler : RpcHandler) (now : Nat)
    (params id : Value) : follower.receive (handler.handleStateSet now params id).2 = follower := by
  unfold RpcHandler.handleStateSet
  obtain ⟨key, hkey, _⟩ | ⟨message, hkey, _⟩ := RpcHandler.requiredStr_cases params "key" id
  · rw [hkey]
    obtain ⟨value, hvalue, _⟩ | ⟨message, hvalue, _⟩ :=
      RpcHandler.requiredStr_cases params "value" id
    · simp only [hvalue]
      rfl
    · simp only [hvalue]
      rfl
  · rw [hkey]
    rfl

theorem receive_answer {req : RpcRequest} {now : Nat} {lastSeenSecs : String → Nat}
    (follower : Follower) (handler : RpcHandler) (hmethod : req.method ≠ "sync.delta")
    (id : Value) : follower.receive (handler.answer now lastSeenSecs req id).2 = follower := by
  unfold RpcHandler.answer
  split
  · exact follower.receive_stateGet handler req.params id
  · exact follower.receive_stateSet handler now req.params id
  · rfl
  · rfl
  · rfl
  · exact absurd ‹_› hmethod
  · rfl

/-- Only `state.get` and `sync.delta` are answered with entries, and those are of the store. -/
theorem get_of_mem_entries_answer {req : RpcRequest} {now : Nat} {lastSeenSecs : String → Nat}
    {handler : RpcHandler} (hmethod : req.method ≠ "sync.delta") {id : Value} {k : String}
    {v : LwwValue} (hv : (k, v) ∈ (handler.answer now lastSeenSecs req id).2.entries) :
    handler.store.get k = some v := by
  unfold RpcHandler.answer at hv
  split at hv
  · unfold RpcHandler.handleStateGet at hv
    obtain ⟨key, hkey, _⟩ | ⟨message, hkey, _⟩ := RpcHandler.requiredStr_cases req.params "key" id
    · simp only [hkey] at hv
      cases hget : handler.store.get key with
      | none =>
          rw [hget] at hv
          exact absurd hv List.not_mem_nil
      | some w =>
          rw [hget] at hv
          obtain ⟨rfl, rfl⟩ := Prod.mk.inj (List.mem_singleton.mp hv)
          exact hget
    · rw [hkey] at hv
      exact absurd hv List.not_mem_nil
  · unfold RpcHandler.handleStateSet at hv
    obtain ⟨key, hkey, _⟩ | ⟨message, hkey, _⟩ := RpcHandler.requiredStr_cases req.params "key" id
    · obtain ⟨value, hvalue, _⟩ | ⟨message, hvalue, _⟩ :=
        RpcHandler.requiredStr_cases req.params "value" id
      · simp only [hkey, hvalue] at hv
        exact absurd hv List.not_mem_nil
      · simp only [hkey, hvalue] at hv
        exact absurd hv List.not_mem_nil
    · rw [hkey] at hv
      exact absurd hv List.not_mem_nil
  · exact absurd hv List.not_mem_nil
  · exact absurd hv List.not_mem_nil
  · exact absurd hv List.not_mem_nil
  · exact absurd ‹_› hmethod
  · exact absurd hv List.not_mem_nil

end Follower

/-! ### What a connection does, as a follower sees it -/

namespace Connection

def follower (c : Connection) : Follower := Follower.after c.lines

def Wants (c : Connection) (key : String) : Prop :=
  c.subPrefix.all (fun p => p.toList.isPrefixOf key.toList) = true

instance (c : Connection) (key : String) : Decidable (c.Wants key) :=
  inferInstanceAs (Decidable (_ = true))

instance (c : Connection) : Decidable c.Running :=
  match hpc : c.pc with
  | .selecting _ | .writing _ => isTrue (by simp [Running, hpc])
  | .ended exit => isFalse fun hrunning => hrunning exit hpc

/-- A step of a connection in terms of the lines it writes and the receiver it keeps. -/
inductive Speaks (fromStr : String → Except String RpcRequest) (c c' : Connection) : Prop
  | silent (hlines : c'.lines = c.lines) (hsubscription : c'.subscription = c.subscription)
      (hmatching : c'.subPrefix = c.subPrefix)
  | broken (hlines : c'.lines <+: c.lines) (hsubscription : c'.subscription = c.subscription)
      (hended : ¬ c'.Running)
  | forwarded {receiver : Receiver} {ev : StateEvent} (hreceiver : c.subscription = some receiver)
      (hev : c.handler.events.sent[receiver.next]? = some ev)
      (hlines : c'.lines = c.lines ++ [.notification (.stateUpdate ev.key ev.value)])
      (hsubscription : c'.subscription = some { next := receiver.next + 1 })
      (hmatching : c'.subPrefix = c.subPrefix)
  | filtered {receiver : Receiver} {ev : StateEvent} (hreceiver : c.subscription = some receiver)
      (hev : c.handler.events.sent[receiver.next]? = some ev) (hunwanted : ¬ c.Wants ev.key)
      (hlines : c'.lines = c.lines)
      (hsubscription : c'.subscription = some { next := receiver.next + 1 })
      (hmatching : c'.subPrefix = c.subPrefix)
  | lagged {n : Nat} (hlines : c'.lines = c.lines ++ [.notification (.lag n)])
      (hsubscription : c'.subscription = some { next := c.handler.events.oldest })
  | subscribed {subPrefix : Option String} {id : Value}
      (hlines : c'.lines = c.lines ++ [.response (RpcResponse.ok (.object
        [("status", .string "subscribed"), ("prefix", .ofOption subPrefix)]) id)])
      (hsubscription : c'.subscription = some c.handler.events.subscribe)
  | synced {line : String} {req : RpcRequest} {id : Value} (hreq : fromStr line = .ok req)
      (hmethod : req.method = "sync.delta") (hdispatched : c'.dispatched = c.dispatched ++ [line])
      (hlines : c'.lines = c.lines ++ [c.handler.handleSyncDelta req.params id])
      (hsubscription : c'.subscription = c.subscription) (hmatching : c'.subPrefix = c.subPrefix)
  | answered {reply : Outgoing} (hreply : ∀ follower : Follower, follower.receive reply = follower)
      (hentries : ∀ k v, (k, v) ∈ reply.entries → c.handler.store.get k = some v)
      (hlines : c'.lines = c.lines ++ [reply]) (hsubscription : c'.subscription = c.subscription)
      (hmatching : c'.subPrefix = c.subPrefix)

variable {fromStr : String → Except String RpcRequest} {c c' : Connection}

theorem speaks_handleLine {taken : List UInt8} (hpc : c.pc = .selecting taken) (now : Nat)
    (lastSeenSecs : String → Nat) (bytes : List UInt8) :
    Speaks fromStr c (handleLine fromStr now lastSeenSecs c bytes) := by
  have hwritten := lines_of_selecting hpc
  cases hdecode : Lines.decode bytes with
  | none =>
      refine .broken ?_ ?_ ?_
      · simp [handleLine, hdecode, lines, hpc]
      · simp [handleLine, hdecode]
      · simp [handleLine, hdecode, Running]
  | some text =>
      by_cases hblank : Lines.trim text = []
      · refine .silent ?_ ?_ ?_
        · simp [handleLine, hdecode, hblank, lines, hpc]
        · simp [handleLine, hdecode, hblank]
        · simp [handleLine, hdecode, hblank]
      · have hdispatched : (handleLine fromStr now lastSeenSecs c bytes).dispatched
            = c.dispatched ++ [String.ofList (Lines.trim text)] :=
          dispatched_handleLine hdecode hblank
        cases hreq : fromStr (String.ofList (Lines.trim text)) with
        | error e =>
            simp only [handleLine, hdecode, if_neg hblank, RpcHandler.dispatch_error hreq]
            have hreply (follower : Follower) : follower.receive
                (.error (RpcError.new ErrorCodes.parseError e .null)) = follower := rfl
            refine .answered hreply ?_ (by simp [lines, hpc]) rfl rfl
            exact fun k v hv => absurd hv List.not_mem_nil
        | ok req =>
            by_cases hsubscribe : req.method = "state.subscribe"
            · simp only [handleLine, hdecode, if_neg hblank, RpcHandler.dispatch_eq hreq,
                if_pos hsubscribe, RpcHandler.handleSubscribe]
              exact .subscribed (by rw [hwritten]; rfl) rfl
            by_cases hid : req.id.isNone
            · simp only [handleLine, hdecode, if_neg hblank, RpcHandler.dispatch_eq hreq,
                if_neg hsubscribe, if_pos hid]
              exact .silent (by simp [lines, hpc]) rfl rfl
            by_cases hsync : req.method = "sync.delta"
            · have hlines : (handleLine fromStr now lastSeenSecs c bytes).lines = c.lines
                  ++ [c.handler.handleSyncDelta req.params (req.id.getD .null)] := by
                simp only [handleLine, hdecode, if_neg hblank, RpcHandler.dispatch_eq hreq,
                  if_neg hsubscribe, if_neg hid]
                simp [lines, hpc, RpcHandler.answer, hsync]
              refine .synced hreq hsync hdispatched hlines ?_ ?_
              all_goals
                simp only [handleLine, hdecode, if_neg hblank, RpcHandler.dispatch_eq hreq,
                  if_neg hsubscribe, if_neg hid]
            · simp only [handleLine, hdecode, if_neg hblank, RpcHandler.dispatch_eq hreq,
                if_neg hsubscribe, if_neg hid]
              have hreply (follower : Follower) : follower.receive (c.handler.answer now
                  lastSeenSecs req (req.id.getD .null)).2 = follower :=
                follower.receive_answer c.handler hsync _
              exact .answered hreply (fun k v => Follower.get_of_mem_entries_answer hsync)
                (by simp [lines, hpc]) rfl rfl

theorem speaks_pollSubscription {taken : List UInt8} (hpc : c.pc = .selecting taken)
    (hpoll : c.pollSubscription = some c') : Speaks fromStr c c' := by
  have hwritten := lines_of_selecting hpc
  simp only [pollSubscription, Option.bind_eq_bind, Option.bind_eq_some_iff] at hpoll
  obtain ⟨receiver, hreceiver, ⟨polled, receiver'⟩, hrecv, hpoll⟩ := hpoll
  unfold Channel.recv at hrecv
  split at hrecv
  · obtain ⟨rfl, rfl⟩ := Prod.mk.inj (Option.some.inj hrecv)
    obtain rfl := Option.some.inj hpoll
    exact .lagged (by rw [hwritten]; rfl) rfl
  · obtain ⟨ev, hev, heq⟩ := Option.map_eq_some_iff.mp hrecv
    obtain ⟨rfl, rfl⟩ := Prod.mk.inj heq
    simp only at hpoll
    split at hpoll
    · obtain rfl := Option.some.inj hpoll
      exact .forwarded hreceiver hev (by rw [hwritten]; rfl) rfl rfl
    · rename_i hunwanted
      obtain rfl := Option.some.inj hpoll
      exact .filtered hreceiver hev hunwanted (by simp [lines, hpc]) rfl rfl

theorem Speaks.rebuffer {inbox buffer : List UInt8}
    (h : Speaks fromStr { c with inbox := inbox, buffer := buffer } c') : Speaks fromStr c c' := by
  cases h with
  | silent hlines hsubscription hmatching => exact .silent hlines hsubscription hmatching
  | broken hlines hsubscription hended => exact .broken hlines hsubscription hended
  | forwarded hreceiver hev hlines hsubscription hmatching =>
      exact .forwarded hreceiver hev hlines hsubscription hmatching
  | filtered hreceiver hev hunwanted hlines hsubscription hmatching =>
      exact .filtered hreceiver hev hunwanted hlines hsubscription hmatching
  | lagged hlines hsubscription => exact .lagged hlines hsubscription
  | subscribed hlines hsubscription => exact .subscribed hlines hsubscription
  | synced hreq hmethod hdispatched hlines hsubscription hmatching =>
      exact .synced hreq hmethod hdispatched hlines hsubscription hmatching
  | answered hreply hentries hlines hsubscription hmatching =>
      exact .answered hreply hentries hlines hsubscription hmatching

theorem speaks_of_step {a : ConnectionAction} (hstep : c.step fromStr a = some c') :
    Speaks fromStr c c' := by
  cases moves_of_step hstep with
  | arrive hn => exact .silent rfl rfl rfl
  | close hunsent => exact .silent rfl rfl rfl
  | others => exact .silent rfl rfl rfl
  | wrote hpc => exact .silent (by simp [lines, hpc]) rfl rfl
  | writeFailed hpc => exact .broken (by simp [lines]) rfl (fun h => h _ rfl)
  | cancelled hpc => exact .silent (by simp [lines, hpc]) rfl rfl
  | readFailed hpc => exact .silent (by simp [lines, hpc]) rfl rfl
  | event hpc hpoll => exact speaks_pollSubscription hpc hpoll
  | fill hpc hpoll =>
      obtain ⟨before, after, inbox, -, -, rfl⟩ | ⟨available, inbox, -, -, -, rfl⟩
          | ⟨-, -, ⟨-, rfl⟩ | ⟨-, rfl⟩⟩ := pollReadLine_cases hpoll
      · exact (speaks_handleLine (c := { c with inbox := inbox, buffer := after }) hpc
          _ _ _).rebuffer
      · exact .silent (by simp [lines, hpc]) rfl rfl
      · exact .silent (by simp [lines, hpc]) rfl rfl
      · exact (speaks_handleLine (c := { c with inbox := [], buffer := [] }) hpc _ _ _).rebuffer

end Connection

end StateSync
