import StateSync.Rpc.Serde
import StateSync.Rpc.Server

/-!
# What a request is answered with

Every request that deserializes has one answer, with its id and a code that depends on the method
and the parameters only. Whether the answer is sent depends on the id alone, which is `none` for a
missing member and for a `null`; a subscription is answered in any case. The version of the protocol
is read and never looked at.
-/

namespace StateSync

def Outgoing.id : Outgoing → Option Value
  | .response resp => some resp.id
  | .error err => some err.id
  | .notification _ => none

def Outgoing.code : Outgoing → Option Int
  | .error err => some err.error.code
  | _ => none

/-- The lines the server writes for a request. -/
def DispatchResult.replies : DispatchResult → List Outgoing
  | .response reply => [reply]
  | .subscribed initialResponse _ _ => [initialResponse]
  | .notification => []

def supportedMethods : List String :=
  ["state.get", "state.set", "state.subscribe", "state.keys", "node.peers", "sync.status",
    "sync.delta"]

def Value.Lacks (params : Value) (field : String) : Prop :=
  (params.get field).bind Value.asStr = none

/-- A required parameter is missing or no string. -/
def MissingParam (method : String) (params : Value) : Prop :=
  method = "state.get" ∧ params.Lacks "key"
    ∨ method = "state.set" ∧ (params.Lacks "key" ∨ params.Lacks "value")

/-- The one answer to a request. -/
structure Answers (req : RpcRequest) (id : Value) (reply : Outgoing) : Prop where
  replyId : reply.id = some id
  methodNotFound : reply.code = some ErrorCodes.methodNotFound ↔ req.method ∉ supportedMethods
  invalidParams : reply.code = some ErrorCodes.invalidParams ↔ MissingParam req.method req.params
  result : req.method ∈ supportedMethods → ¬ MissingParam req.method req.params →
    ∃ result, reply = .response (RpcResponse.ok result id)

namespace RpcHandler

variable {fromStr : String → Except String RpcRequest} {now : Nat} {lastSeenSecs : String → Nat}
  {handler : RpcHandler} {raw : String} {req : RpcRequest}

theorem answers_of_result {id result : Value} (hmethod : req.method ∈ supportedMethods)
    (hparams : ¬ MissingParam req.method req.params) :
    Answers req id (.response (RpcResponse.ok result id)) where
  replyId := rfl
  methodNotFound := by simp [Outgoing.code, hmethod]
  invalidParams := by simp [Outgoing.code, hparams]
  result := fun _ _ => ⟨result, rfl⟩

theorem answers_of_missing {id : Value} {message : String}
    (hparams : MissingParam req.method req.params) :
    Answers req id (.error (RpcError.new ErrorCodes.invalidParams message id)) where
  replyId := rfl
  methodNotFound := by
    have hmethod : req.method ∈ supportedMethods := by
      obtain ⟨hmethod, _⟩ | ⟨hmethod, _⟩ := hparams
      · simp [hmethod, supportedMethods]
      · simp [hmethod, supportedMethods]
    simp [Outgoing.code, RpcError.new, ErrorCodes.invalidParams, ErrorCodes.methodNotFound, hmethod]
  invalidParams := by simp [Outgoing.code, RpcError.new, hparams]
  result := fun _ h => absurd hparams h

theorem requiredStr_cases (params : Value) (field : String) (id : Value) :
    (∃ s, requiredStr params field id = .ok s ∧ ¬ params.Lacks field)
      ∨ ∃ message, requiredStr params field id
          = .error (.error (RpcError.new ErrorCodes.invalidParams message id))
        ∧ params.Lacks field := by
  unfold requiredStr Value.Lacks
  cases (params.get field).bind Value.asStr with
  | none => exact Or.inr ⟨_, rfl, rfl⟩
  | some s => exact Or.inl ⟨s, rfl, by simp⟩

theorem answers_stateGet (hmethod : req.method = "state.get") (id : Value) :
    Answers req id (handler.handleStateGet req.params id) := by
  have hsupported : req.method ∈ supportedMethods := by simp [hmethod, supportedMethods]
  unfold handleStateGet
  obtain ⟨key, hkey, hhas⟩ | ⟨message, hkey, hlacks⟩ := requiredStr_cases req.params "key" id
  · rw [hkey]
    exact answers_of_result hsupported (by simp [MissingParam, hmethod, hhas])
  · rw [hkey]
    exact answers_of_missing (by simp [MissingParam, hmethod, hlacks])

theorem answers_stateSet (hmethod : req.method = "state.set") (id : Value) :
    Answers req id (handler.handleStateSet now req.params id).2 := by
  have hsupported : req.method ∈ supportedMethods := by simp [hmethod, supportedMethods]
  unfold handleStateSet
  obtain ⟨key, hkey, hhas⟩ | ⟨message, hkey, hlacks⟩ := requiredStr_cases req.params "key" id
  · obtain ⟨value, hvalue, hhas'⟩ | ⟨message, hvalue, hlacks⟩ :=
      requiredStr_cases req.params "value" id
    · rw [hkey]
      simp only [hvalue]
      exact answers_of_result hsupported (by simp [MissingParam, hmethod, hhas, hhas'])
    · rw [hkey]
      simp only [hvalue]
      exact answers_of_missing (by simp [MissingParam, hmethod, hlacks])
  · rw [hkey]
    exact answers_of_missing (by simp [MissingParam, hmethod, hlacks])

theorem events_handleStateSet (params id : Value) :
    ∃ sent, (handler.handleStateSet now params id).1.events = handler.events.send sent := by
  have hnone : handler.events = handler.events.send [] := by simp [Broadcast.Channel.send]
  unfold handleStateSet
  split
  · exact ⟨[], hnone⟩
  · split
    · exact ⟨[], hnone⟩
    · exact ⟨_, rfl⟩

/-- The methods other than `state.subscribe`, as `dispatch` tells them apart. -/
def answer (now : Nat) (lastSeenSecs : String → Nat) (handler : RpcHandler) (req : RpcRequest)
    (id : Value) : RpcHandler × Outgoing :=
  match req.method with
  | "state.get" => (handler, handler.handleStateGet req.params id)
  | "state.set" => handler.handleStateSet now req.params id
  | "state.keys" => (handler, handler.handleStateKeys id)
  | "node.peers" => (handler, handler.handleNodePeers lastSeenSecs id)
  | "sync.status" => (handler, handler.handleSyncStatus id)
  | "sync.delta" => (handler, handler.handleSyncDelta req.params id)
  | other => (handler, .error (RpcError.new ErrorCodes.methodNotFound
      ("Method not found: " ++ other) id))

theorem dispatch_eq (hreq : fromStr raw = .ok req) :
    handler.dispatch fromStr now lastSeenSecs raw
      = if req.method = "state.subscribe" then
          (handler, handler.handleSubscribe req.params (req.id.getD .null))
        else
          ((handler.answer now lastSeenSecs req (req.id.getD .null)).1,
            if req.id.isNone then .notification
            else .response (handler.answer now lastSeenSecs req (req.id.getD .null)).2) := by
  simp only [dispatch, hreq]
  rfl

theorem dispatch_error {e : String} (he : fromStr raw = .error e) :
    handler.dispatch fromStr now lastSeenSecs raw
      = (handler, .response (.error (RpcError.new ErrorCodes.parseError e .null))) := by
  simp only [dispatch, he]

theorem answers_answer (hmethod : req.method ≠ "state.subscribe") (id : Value) :
    Answers req id (handler.answer now lastSeenSecs req id).2 := by
  unfold answer
  split
  · exact answers_stateGet ‹_› id
  · exact answers_stateSet ‹_› id
  · exact answers_of_result (by simp [supportedMethods, *]) (by simp [MissingParam, *])
  · exact answers_of_result (by simp [supportedMethods, *]) (by simp [MissingParam, *])
  · exact answers_of_result (by simp [supportedMethods, *]) (by simp [MissingParam, *])
  · exact answers_of_result (by simp [supportedMethods, *]) (by simp [MissingParam, *])
  · rename_i hget hset hkeys hpeers hstatus hdelta
    have hunknown : req.method ∉ supportedMethods := by
      simp only [supportedMethods, List.mem_cons, List.not_mem_nil, or_false]
      tauto
    exact
      { replyId := rfl
        methodNotFound := by simp [Outgoing.code, RpcError.new, hunknown]
        invalidParams := by
          have hparams : ¬ MissingParam req.method req.params := by
            rintro (⟨hmethod, _⟩ | ⟨hmethod, _⟩)
            · exact hget hmethod
            · exact hset hmethod
          simp [Outgoing.code, RpcError.new, ErrorCodes.methodNotFound, ErrorCodes.invalidParams,
            hparams]
        result := fun h => absurd h hunknown }

theorem events_answer (id : Value) : ∃ sent,
    (handler.answer now lastSeenSecs req id).1.events = handler.events.send sent := by
  have hnone : handler.events = handler.events.send [] := by simp [Broadcast.Channel.send]
  unfold answer
  split
  · exact ⟨[], hnone⟩
  · exact events_handleStateSet req.params id
  all_goals exact ⟨[], hnone⟩

/-- **Every request has one answer.** It is sent unless there is no id; a subscription is answered
in any case, with a receiver of what is broadcast from then on. -/
theorem dispatch_ok (hreq : fromStr raw = .ok req) :
    ∃ reply sent, Answers req (req.id.getD .null) reply
      ∧ (handler.dispatch fromStr now lastSeenSecs raw).1.events = handler.events.send sent
      ∧ (handler.dispatch fromStr now lastSeenSecs raw).2
        = if req.method = "state.subscribe" then
            .subscribed reply handler.events.subscribe ((req.params.get "prefix").bind Value.asStr)
          else if req.id.isNone then .notification else .response reply := by
  rw [dispatch_eq hreq]
  by_cases hmethod : req.method = "state.subscribe"
  · have hanswers (result : Value) : Answers req (req.id.getD .null)
        (.response (RpcResponse.ok result (req.id.getD .null))) :=
      answers_of_result (by simp [hmethod, supportedMethods]) (by simp [MissingParam, hmethod])
    simp only [if_pos hmethod]
    exact ⟨_, [], hanswers _, by simp [Broadcast.Channel.send], rfl⟩
  · obtain ⟨sent, hsent⟩ := @events_answer now lastSeenSecs handler req (req.id.getD .null)
    simp only [if_neg hmethod]
    exact ⟨_, sent, answers_answer hmethod _, hsent, rfl⟩

end RpcHandler

/-! ### The connection -/

namespace Connection

open Lines

/-- The lines written so far, and the one that is being written. -/
def lines (c : Connection) : List Outgoing :=
  c.written ++ match c.pc with
    | .writing line => [line]
    | _ => []

theorem lines_handleLine {fromStr : String → Except String RpcRequest} {now : Nat}
    {lastSeenSecs : String → Nat} {c : Connection} {taken bytes : List UInt8} {text : List Char}
    (hpc : c.pc = .selecting taken) (hbytes : decode bytes = some text) (htext : trim text ≠ []) :
    (handleLine fromStr now lastSeenSecs c bytes).lines = c.lines
      ++ (c.handler.dispatch fromStr now lastSeenSecs (String.ofList (trim text))).2.replies := by
  have hlines : c.lines = c.written := by simp [lines, hpc]
  rw [hlines]
  simp only [handleLine, hbytes, if_neg htext]
  split <;> simp [lines, DispatchResult.replies, *]

end Connection

end StateSync
