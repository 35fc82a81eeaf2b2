import StateSync.Proof.Connections

/-!
# Responses come in the order of the requests

A connection reads one line at a time and writes its answer before it looks for the next, so a
client can match responses with requests by counting. Each response is what `dispatch` returned for
its line, which ids alone would not tell. Notifications of a subscription stand anywhere between
them, and the one response that can be missing is the last, of a connection that broke while it was
written.
-/

namespace StateSync

/-- The lines that are answered: those that do not deserialize, subscriptions, and every other
request with an id. -/
def isAnswered (fromStr : String → Except String RpcRequest) (line : String) : Bool :=
  match fromStr line with
  | .error _ => true
  | .ok req => req.method = "state.subscribe" || req.id.isSome

/-- The answer has the id and the class that this line asks for. -/
def AnswersLine (fromStr : String → Except String RpcRequest) (line : String) (reply : Outgoing) :
    Prop :=
  match fromStr line with
  | .error e => reply = .error (RpcError.new ErrorCodes.parseError e .null)
  | .ok req => Answers req (req.id.getD .null) reply

variable {fromStr : String → Except String RpcRequest}

theorem isNotification_of_answersLine {line : String} {reply : Outgoing}
    (h : AnswersLine fromStr line reply) : reply.isNotification = false := by
  unfold AnswersLine at h
  split at h
  · rw [h]
    rfl
  · have hid := h.replyId
    cases reply with
    | response r => rfl
    | error e => rfl
    | notification n => simp [Outgoing.id] at hid

theorem filter_of_answersLine {answered : List String} {replies : List Outgoing}
    (h : List.Forall₂ (AnswersLine fromStr) answered replies) :
    replies.filter (fun line => !line.isNotification) = replies := by
  induction h with
  | nil => rfl
  | cons hanswer _ ih =>
      rw [List.filter_cons_of_pos (by simp [isNotification_of_answersLine hanswer]), ih]

theorem forall₂_replies (handler : RpcHandler) (now : Nat) (lastSeenSecs : String → Nat)
    (line : String) : List.Forall₂ (AnswersLine fromStr) ([line].filter (isAnswered fromStr))
      (handler.dispatch fromStr now lastSeenSecs line).2.replies := by
  cases hreq : fromStr line with
  | error e =>
      have hanswered : isAnswered fromStr line = true := by simp [isAnswered, hreq]
      have hanswer : AnswersLine fromStr line
          (.error (RpcError.new ErrorCodes.parseError e .null)) := by simp [AnswersLine, hreq]
      rw [List.filter_cons_of_pos hanswered, RpcHandler.dispatch_error hreq]
      exact .cons hanswer .nil
  | ok req =>
      obtain ⟨reply, _, hanswers, _, hresult⟩ :=
        @RpcHandler.dispatch_ok fromStr now lastSeenSecs handler line req hreq
      have hanswer : AnswersLine fromStr line reply := by simpa [AnswersLine, hreq] using hanswers
      rw [hresult]
      by_cases hmethod : req.method = "state.subscribe"
      · have hanswered : isAnswered fromStr line = true := by simp [isAnswered, hreq, hmethod]
        rw [List.filter_cons_of_pos hanswered, if_pos hmethod]
        exact .cons hanswer .nil
      rw [if_neg hmethod]
      by_cases hid : req.id.isNone
      · have hanswered : ¬ isAnswered fromStr line = true := by
          simp [isAnswered, hreq, hmethod, Option.isNone_iff_eq_none.mp hid]
        rw [List.filter_cons_of_neg hanswered, if_pos hid]
        exact .nil
      · have hanswered : isAnswered fromStr line = true := by
          simp [isAnswered, hreq, Option.ne_none_iff_isSome.mp (by simpa using hid)]
        rw [List.filter_cons_of_pos hanswered, if_neg hid]
        exact .cons hanswer .nil

namespace Connection

variable {c c' : Connection}

def responses (c : Connection) : List Outgoing := c.lines.filter fun line => !line.isNotification

/-- The lines that a step dispatches, with what `dispatch` returns for them. -/
def dispatches (fromStr : String → Except String RpcRequest) (c : Connection) :
    ConnectionAction → List (String × DispatchResult)
  | .fill n now lastSeenSecs =>
      (c.step fromStr (.fill n now lastSeenSecs)).elim [] fun c' =>
        (c'.dispatched.drop c.dispatched.length).map fun line =>
          (line, (c.handler.dispatch fromStr now lastSeenSecs line).2)
  | _ => []

/-- The log is that of the lines dispatched, and what they returned are the responses, but for a
last one that could not be written. -/
structure Answered (fromStr : String → Except String RpcRequest)
    (log : List (String × DispatchResult)) (c : Connection) : Prop where
  logged : log.map Prod.fst = c.dispatched
  answers : ∀ entry ∈ log, List.Forall₂ (AnswersLine fromStr)
    ([entry.1].filter (isAnswered fromStr)) entry.2.replies
  replied : ∃ lost, log.flatMap (fun entry => entry.2.replies) = c.responses ++ lost
    ∧ (lost = [] ∨ c.pc = .ended .writeError ∧ lost.length = 1)

variable {log : List (String × DispatchResult)}

theorem Answered.of_running (h : Answered fromStr log c) (hrunning : c.Running) :
    log.flatMap (fun entry => entry.2.replies) = c.responses := by
  obtain ⟨lost, hresponses, rfl | ⟨hpc, _⟩⟩ := h.replied
  · rwa [List.append_nil] at hresponses
  · exact absurd hpc (hrunning _)

theorem Answered.unchanged (h : Answered fromStr log c) (hrunning : c.Running)
    (hdispatched : c'.dispatched = c.dispatched) (hresponses : c'.responses = c.responses) :
    Answered fromStr log c' where
  logged := hdispatched ▸ h.logged
  answers := h.answers
  replied := ⟨[], by rw [h.of_running hrunning, hresponses, List.append_nil], Or.inl rfl⟩

theorem Answered.around (h : Answered fromStr log c) (hpc : c'.pc = c.pc)
    (hdispatched : c'.dispatched = c.dispatched) (hresponses : c'.responses = c.responses) :
    Answered fromStr log c' where
  logged := hdispatched ▸ h.logged
  answers := h.answers
  replied := by
    obtain ⟨lost, hlost, hlast⟩ := h.replied
    exact ⟨lost, by rwa [hresponses], by rwa [hpc]⟩

/-- Nothing is dispatched, so the log stays as it is. -/
theorem Answered.unlogged (h : Answered fromStr log c) (hrunning : c.Running)
    (hdispatched : c'.dispatched = c.dispatched) (hresponses : c'.responses = c.responses)
    (entry : String → String × DispatchResult) :
    Answered fromStr (log ++ (c'.dispatched.drop c.dispatched.length).map entry) c' := by
  rw [hdispatched, List.drop_length, List.map_nil, List.append_nil]
  exact h.unchanged hrunning hdispatched hresponses

/-- One more line is dispatched, and its replies are written. -/
theorem Answered.concat (h : Answered fromStr log c) (hrunning : c.Running) {line : String}
    {result : DispatchResult} (hdispatched : c'.dispatched = c.dispatched ++ [line])
    (hlines : c'.lines = c.lines ++ result.replies)
    (hreplies : List.Forall₂ (AnswersLine fromStr) ([line].filter (isAnswered fromStr))
      result.replies) : Answered fromStr (log ++ [(line, result)]) c' where
  logged := by rw [List.map_append, h.logged, hdispatched, List.map_singleton]
  answers := by
    intro entry hentry
    obtain hentry | hentry := List.mem_append.mp hentry
    · exact h.answers entry hentry
    · rw [List.mem_singleton.mp hentry]
      exact hreplies
  replied := by
    refine ⟨[], ?_, Or.inl rfl⟩
    have hresponses : c'.responses = c.responses ++ result.replies := by
      rw [responses, hlines, List.filter_append, filter_of_answersLine hreplies]
      rfl
    rw [List.flatMap_append, h.of_running hrunning, hresponses, List.append_nil,
      List.flatMap_singleton]

theorem Answered.handleLine (h : Answered fromStr log c) {taken : List UInt8}
    (hpc : c.pc = .selecting taken) (now : Nat) (lastSeenSecs : String → Nat)
    (bytes : List UInt8) :
    Answered fromStr (log
        ++ ((handleLine fromStr now lastSeenSecs c bytes).dispatched.drop c.dispatched.length).map
          fun line => (line, (c.handler.dispatch fromStr now lastSeenSecs line).2))
      (handleLine fromStr now lastSeenSecs c bytes) := by
  have hrunning := running_of_selecting hpc
  cases hdecode : Lines.decode bytes with
  | none =>
      apply h.unlogged hrunning
      · simp [Connection.handleLine, hdecode]
      · simp [Connection.handleLine, hdecode, responses, lines, hpc]
  | some text =>
      by_cases hblank : Lines.trim text = []
      · apply h.unlogged hrunning
        · simp [Connection.handleLine, hdecode, hblank]
        · simp [Connection.handleLine, hdecode, hblank, responses, lines, hpc]
      · have hdispatched : (Connection.handleLine fromStr now lastSeenSecs c bytes).dispatched
            = c.dispatched ++ [String.ofList (Lines.trim text)] :=
          dispatched_handleLine hdecode hblank
        rw [hdispatched, List.drop_left, List.map_singleton]
        exact h.concat hrunning hdispatched (lines_handleLine hpc hdecode hblank)
          (forall₂_replies _ _ _ _)

theorem Answered.pollSubscription (h : Answered fromStr log c) {taken : List UInt8}
    (hpc : c.pc = .selecting taken) (hpoll : c.pollSubscription = some c') :
    Answered fromStr log c' := by
  have hdispatched := (pollSubscription_spec hpoll).1.dispatched
  refine h.unchanged (running_of_selecting hpc) hdispatched ?_
  simp only [Connection.pollSubscription, Option.bind_eq_bind, Option.bind_eq_some_iff] at hpoll
  obtain ⟨receiver, -, ⟨polled, receiver'⟩, -, hpoll⟩ := hpoll
  cases polled with
  | value ev =>
      simp only at hpoll
      split at hpoll
      · obtain rfl := Option.some.inj hpoll
        simp [responses, lines, hpc, Outgoing.isNotification]
      · obtain rfl := Option.some.inj hpoll
        simp [responses, lines, hpc]
  | lagged n =>
      obtain rfl := Option.some.inj hpoll
      simp [responses, lines, hpc, Outgoing.isNotification]

theorem Answered.step (h : Answered fromStr log c) {a : ConnectionAction}
    (hstep : c.step fromStr a = some c') : Answered fromStr (log ++ c.dispatches fromStr a) c' := by
  have hnone (hlog : c.dispatches fromStr a = []) (h' : Answered fromStr log c') :
      Answered fromStr (log ++ c.dispatches fromStr a) c' := by
    rwa [hlog, List.append_nil]
  cases moves_of_step hstep with
  | arrive hn => exact hnone rfl (h.around rfl rfl rfl)
  | close hunsent => exact hnone rfl (h.around rfl rfl rfl)
  | others => exact hnone rfl (h.around rfl rfl rfl)
  | wrote hpc =>
      exact hnone rfl
        (h.unchanged (running_of_writing hpc) rfl (by simp [responses, lines, hpc]))
  | cancelled hpc =>
      exact hnone rfl
        (h.unchanged (running_of_selecting hpc) rfl (by simp [responses, lines, hpc]))
  | readFailed hpc =>
      exact hnone rfl
        (h.unchanged (running_of_selecting hpc) rfl (by simp [responses, lines, hpc]))
  | event hpc hpoll => exact hnone rfl (h.pollSubscription hpc hpoll)
  | @writeFailed line hpc =>
      -- the line that was being written is lost, with or without being a response
      refine hnone rfl ⟨h.logged, h.answers, [line].filter fun line => !line.isNotification, ?_, ?_⟩
      · rw [h.of_running (running_of_writing hpc)]
        simp [responses, lines, hpc]
      · by_cases hline : line.isNotification
        · exact Or.inl (by simp [hline])
        · exact Or.inr ⟨rfl, by simp [hline]⟩
  | @fill n now lastSeenSecs taken _ hpc hpoll =>
      have hrunning := running_of_selecting hpc
      rw [dispatches, hstep, Option.elim_some]
      obtain ⟨before, after, inbox, -, -, rfl⟩ | ⟨available, inbox, -, -, -, rfl⟩
          | ⟨-, -, ⟨-, rfl⟩ | ⟨-, rfl⟩⟩ := pollReadLine_cases hpoll
      · have hbuffered : Answered fromStr log { c with inbox := inbox, buffer := after } :=
          h.around rfl rfl rfl
        exact hbuffered.handleLine hpc _ _ _
      · refine h.unlogged hrunning ?_ ?_ _
        · rfl
        · simp [responses, lines, hpc]
      · refine h.unlogged hrunning ?_ ?_ _
        · rfl
        · simp [responses, lines, hpc]
      · have hbuffered : Answered fromStr log { c with inbox := [], buffer := [] } :=
          h.around rfl rfl rfl
        exact hbuffered.handleLine hpc _ _ _

/-- The replies in a log answer the lines in it. -/
theorem forall₂_log (h : ∀ entry ∈ log, List.Forall₂ (AnswersLine fromStr)
      ([entry.1].filter (isAnswered fromStr)) entry.2.replies) :
    List.Forall₂ (AnswersLine fromStr) ((log.map Prod.fst).filter (isAnswered fromStr))
      (log.flatMap fun entry => entry.2.replies) := by
  induction log with
  | nil => exact .nil
  | cons entry log ih =>
      rw [List.map_cons, ← List.singleton_append, List.filter_append, List.flatMap_cons]
      exact List.rel_append (h entry List.mem_cons_self)
        (ih fun other hother => h other (List.mem_cons_of_mem _ hother))

end Connection

namespace RpcServer

/-- What `dispatch` returned on connection `i`, line by line. -/
def dispatchLog (fromStr : String → Except String RpcRequest) (i : Nat) (server : RpcServer)
    (as : List ServerAction) : List (String × DispatchResult) :=
  Machine.trace (step fromStr) (logged (Connection.dispatches fromStr) i) server as

/-- **Responses come in the order of the requests.** On every connection of the server, whatever the
others do, the responses written so far are what `dispatch` returned for the lines dispatched so
far, and answer them one by one and in their order, notifications and the blank lines left out; only
a connection whose writing failed can miss one, and that is the last. -/
theorem responses_in_order {nodeId : String} {capacity : Nat} {as : List ServerAction}
    {final : RpcServer} (hrun : Machine.run (step fromStr) (new nodeId capacity) as = some final)
    {i : Nat} {served : Served} (hserved : final.connections[i]? = some served) :
    (dispatchLog fromStr i (new nodeId capacity) as).map Prod.fst = served.connection.dispatched
      ∧ (∀ entry ∈ dispatchLog fromStr i (new nodeId capacity) as,
          List.Forall₂ (AnswersLine fromStr) ([entry.1].filter (isAnswered fromStr))
            entry.2.replies)
      ∧ ∃ lost, (dispatchLog fromStr i (new nodeId capacity) as).flatMap
            (fun entry => entry.2.replies) = served.connection.responses ++ lost
          ∧ List.Forall₂ (AnswersLine fromStr)
            (served.connection.dispatched.filter (isAnswered fromStr))
            (served.connection.responses ++ lost)
          ∧ (lost = [] ∨ served.connection.pc = .ended .writeError ∧ lost.length = 1) := by
  have hanswered : Connection.Answered fromStr
      (dispatchLog fromStr i (new nodeId capacity) as) served.connection := by
    refine run_connections ?_ ?_ ?_ hrun i served hserved
    · intro handler text
      exact ⟨rfl, by simp, [], rfl, Or.inl rfl⟩
    · intro log c handler h
      exact h.around rfl rfl rfl
    · intro log c a c' h hstep
      exact h.step hstep
  obtain ⟨lost, hresponses, hlost⟩ := hanswered.replied
  have hanswers := Connection.forall₂_log hanswered.answers
  rw [hanswered.logged, hresponses] at hanswers
  exact ⟨hanswered.logged, hanswered.answers, lost, hresponses, hanswers, hlost⟩

/-- A subscription, a write that is notified, and a second request. -/
def notifiedBetween : List ServerAction :=
  [.accept Connection.twoRequests, .connection 0 (.arrive Connection.twoRequests.length),
    .connection 0 (.fill 200 7 fun _ => 0), .connection 0 (.write true),
    .store (.callSet "k" "v" 5), .store (.advance 0), .store (.advance 0),
    .connection 0 .event, .connection 0 (.write true), .connection 0 (.fill 200 8 fun _ => 0)]

theorem responses_in_order_notified :
    ∃ final served, Machine.run (step Connection.requestOf) (new "node-a" 4) notifiedBetween
        = some final
      ∧ final.connections[0]? = some served ∧ served.connection.lines.length = 3
      ∧ (dispatchLog Connection.requestOf 0 (new "node-a" 4) notifiedBetween).map Prod.fst
        = served.connection.dispatched
      ∧ ∃ lost, (dispatchLog Connection.requestOf 0 (new "node-a" 4) notifiedBetween).flatMap
            (fun entry => entry.2.replies) = served.connection.responses ++ lost
          ∧ List.Forall₂ (AnswersLine Connection.requestOf)
            (served.connection.dispatched.filter (isAnswered Connection.requestOf))
            (served.connection.responses ++ lost)
          ∧ (lost = [] ∨ served.connection.pc = .ended .writeError ∧ lost.length = 1) := by
  have hany : (Machine.run (step Connection.requestOf) (new "node-a" 4) notifiedBetween).any
      (fun final => final.connections[0]?.any fun served =>
        decide (served.connection.lines.length = 3)) = true := by
    decide +kernel
  obtain ⟨final, hrun, hany⟩ := Machine.exists_of_any_run hany
  obtain ⟨served, hserved, hlines⟩ := (Option.any_eq_true _ _).mp hany
  obtain ⟨hlog, _, hresponses⟩ := responses_in_order hrun hserved
  exact ⟨final, served, hrun, hserved, of_decide_eq_true hlines, hlog, hresponses⟩

end RpcServer

end StateSync
