import StateSync.Proof.Dispatch
import StateSync.Proof.Requests

/-!
# What a subscription has accounted for

Every poll of a subscription receives one event or learns that some were overwritten, and both move
the receiver forward over what was sent. `Receipt.ofPoll` says which of the two a poll has to be, by
what the channel retains at that moment. The receipts of the polls of a run, in order, cover
everything broadcast since the subscription except what the receiver has yet to receive, and the
notifications written are those of the receipts. Requests and their responses come in between and
change nothing.
-/

namespace StateSync

open Broadcast

/-- What one poll made of what it received. -/
inductive Receipt
  | forwarded (event : StateEvent)
  | filtered (event : StateEvent)
  | dropped (events : List StateEvent)
deriving DecidableEq

namespace Receipt

def covered : Receipt → List StateEvent
  | .forwarded event => [event]
  | .filtered event => [event]
  | .dropped events => events

def line : Receipt → Option Outgoing
  | .forwarded event => some (.notification (.stateUpdate event.key event.value))
  | .filtered _ => none
  | .dropped events => some (.notification (.lag events.length))

/-- What a poll has to account for. Events that the channel no longer retains are dropped, all of
them and no others. When there are none, the next event is received, and it is forwarded exactly
when its key starts with the prefix, if there is one. -/
def ofPoll (subPrefix : Option String) (channel : Channel StateEvent) (receiver : Receiver) :
    Option Receipt :=
  if receiver.next < channel.oldest then
    some (.dropped ((channel.sent.drop receiver.next).take (channel.oldest - receiver.next)))
  else
    channel.sent[receiver.next]?.map fun event =>
      if ∀ p ∈ subPrefix, p.toList <+: event.key.toList then .forwarded event else .filtered event

theorem length_overwritten {channel : Channel StateEvent} {receiver : Receiver}
    (hlagged : receiver.next < channel.oldest) :
    ((channel.sent.drop receiver.next).take (channel.oldest - receiver.next)).length
      = channel.oldest - receiver.next := by
  have hle : channel.oldest ≤ channel.sent.length := Nat.sub_le _ _
  rw [List.length_take, List.length_drop]
  omega

end Receipt

def Outgoing.isNotification : Outgoing → Bool
  | .notification _ => true
  | _ => false

namespace Connection

/-- The accounts of a subscription. Of what was sent since it began, after the first `start` events,
the receipts cover everything that is not still to be received; and after the `earlier` lines came
the response to the subscription and then, among responses, the notifications of the receipts. -/
structure Accounted (start : Nat) (subPrefix : Option String) (earlier : List Outgoing)
    (response : Outgoing) (receiver : Receiver) (receipts : List Receipt) (c : Connection) :
    Prop where
  subscribed : c.subscription = some receiver
  matching : c.subPrefix = subPrefix
  started : start ≤ receiver.next
  sent : receiver.next ≤ c.handler.events.sent.length
  events : c.handler.events.sent.drop start
    = receipts.flatMap Receipt.covered ++ c.handler.events.sent.drop receiver.next
  lines : ∃ rest, c.lines = earlier ++ response :: rest
    ∧ rest.filter Outgoing.isNotification = receipts.filterMap Receipt.line

/-- The receipt of a step, which is one when the step is a poll. -/
def receipt (subPrefix : Option String) (c : Connection) : ConnectionAction → List Receipt
  | .event => (c.subscription.bind (Receipt.ofPoll subPrefix c.handler.events)).toList
  | _ => []

def IsSubscribe (fromStr : String → Except String RpcRequest) (line : String) : Prop :=
  ∃ req, fromStr line = .ok req ∧ req.method = "state.subscribe"

variable {fromStr : String → Except String RpcRequest} {c c' : Connection} {start : Nat}
  {subPrefix : Option String} {earlier : List Outgoing} {response : Outgoing}
  {receiver : Receiver} {receipts : List Receipt}

/-! ### What a step does to the accounts -/

/-- More is sent, and lines that are no notifications are written. -/
theorem Accounted.of_others (h : Accounted start subPrefix earlier response receiver receipts c)
    {sent : List StateEvent} {replies : List Outgoing}
    (hsubscription : c'.subscription = c.subscription) (hsubPrefix : c'.subPrefix = c.subPrefix)
    (hevents : c'.handler.events = c.handler.events.send sent)
    (hlines : c'.lines = c.lines ++ replies)
    (hreplies : ∀ reply ∈ replies, reply.isNotification = false) :
    Accounted start subPrefix earlier response receiver receipts c' where
  subscribed := hsubscription.trans h.subscribed
  matching := hsubPrefix.trans h.matching
  started := h.started
  sent := by
    rw [hevents, Channel.send, List.length_append]
    exact h.sent.trans (Nat.le_add_right _ _)
  events := by
    rw [hevents, Channel.send, List.drop_append_of_le_length (h.started.trans h.sent), h.events,
      List.drop_append_of_le_length h.sent, List.append_assoc]
  lines := by
    obtain ⟨rest, hrest, hfilter⟩ := h.lines
    refine ⟨rest ++ replies, by rw [hlines, hrest]; simp, ?_⟩
    have hnone : replies.filter Outgoing.isNotification = [] := by
      simpa [List.filter_eq_nil_iff] using hreplies
    rw [List.filter_append, hfilter, hnone, List.append_nil]

/-- The receiver moves forward over what one receipt covers. -/
theorem Accounted.receive (h : Accounted start subPrefix earlier response receiver receipts c)
    {receiver' : Receiver} {receipt : Receipt}
    (hsubscription : c'.subscription = some receiver') (hsubPrefix : c'.subPrefix = c.subPrefix)
    (hevents : c'.handler.events = c.handler.events) (hnext : receiver.next ≤ receiver'.next)
    (hsent : receiver'.next ≤ c.handler.events.sent.length)
    (hcovered : c.handler.events.sent.drop receiver.next
      = receipt.covered ++ c.handler.events.sent.drop receiver'.next)
    (hlines : c'.lines = c.lines ++ receipt.line.toList) :
    Accounted start subPrefix earlier response receiver' (receipts ++ [receipt]) c' where
  subscribed := hsubscription
  matching := hsubPrefix.trans h.matching
  started := h.started.trans hnext
  sent := hevents ▸ hsent
  events := by
    rw [hevents, h.events, hcovered]
    simp
  lines := by
    obtain ⟨rest, hrest, hfilter⟩ := h.lines
    refine ⟨rest ++ receipt.line.toList, by rw [hlines, hrest]; simp, ?_⟩
    rw [List.filter_append, hfilter, List.filterMap_append]
    cases receipt <;> simp [Receipt.line, Outgoing.isNotification]

theorem lines_of_selecting {taken : List UInt8} (hpc : c.pc = .selecting taken) :
    c.lines = c.written := by
  simp [lines, hpc]

theorem drop_lagged {channel : Channel StateEvent} (hlagged : receiver.next < channel.oldest) :
    channel.sent.drop receiver.next
      = (channel.sent.drop receiver.next).take (channel.oldest - receiver.next)
        ++ channel.sent.drop channel.oldest := by
  conv_lhs => rw [← List.take_append_drop (channel.oldest - receiver.next)
    (channel.sent.drop receiver.next)]
  rw [List.drop_drop, Nat.add_sub_cancel' hlagged.le]

/-- **A poll is the receipt it has to be.** -/
theorem Accounted.pollSubscription
    (h : Accounted start subPrefix earlier response receiver receipts c) {taken : List UInt8}
    (hpc : c.pc = .selecting taken) (hpoll : c.pollSubscription = some c') :
    ∃ receiver', Accounted start subPrefix earlier response receiver'
      (receipts ++ c.receipt subPrefix .event) c' := by
  have hmatching := h.matching
  have hreceipt : c.receipt subPrefix .event
      = (Receipt.ofPoll subPrefix c.handler.events receiver).toList := by
    simp [receipt, h.subscribed]
  rw [hreceipt]
  simp only [Connection.pollSubscription, h.subscribed, Option.bind_eq_bind, Option.bind_some,
    Option.bind_eq_some_iff] at hpoll
  obtain ⟨⟨polled, receiver'⟩, hrecv, hpoll⟩ := hpoll
  unfold Channel.recv at hrecv
  unfold Receipt.ofPoll
  split at hrecv
  · rename_i hlagged
    obtain ⟨rfl, rfl⟩ := Prod.mk.inj (Option.some.inj hrecv)
    obtain rfl := Option.some.inj hpoll
    rw [if_pos hlagged]
    refine ⟨_, h.receive rfl rfl rfl hlagged.le (Nat.sub_le _ _) (drop_lagged hlagged) ?_⟩
    simp [Connection.lines, hpc, Receipt.line, Receipt.length_overwritten hlagged]
  · rename_i hretained
    obtain ⟨ev, hev, heq⟩ := Option.map_eq_some_iff.mp hrecv
    obtain ⟨rfl, rfl⟩ := Prod.mk.inj heq
    obtain ⟨hlt, rfl⟩ := List.getElem?_eq_some_iff.mp hev
    have hdrop := List.drop_eq_getElem_cons hlt
    have hwants : (c.subPrefix.all fun p => p.toList.isPrefixOf
        c.handler.events.sent[receiver.next].key.toList) = true
        ↔ ∀ p ∈ subPrefix, p.toList <+: c.handler.events.sent[receiver.next].key.toList := by
      rw [hmatching]
      cases subPrefix <;> simp
    rw [if_neg hretained, hev, Option.map_some]
    simp only at hpoll
    split at hpoll
    · rename_i hall
      obtain rfl := Option.some.inj hpoll
      rw [if_pos (hwants.mp hall)]
      refine ⟨_, h.receive rfl rfl rfl (Nat.le_succ _) hlt hdrop ?_⟩
      simp [Connection.lines, hpc, Receipt.line]
    · rename_i hall
      obtain rfl := Option.some.inj hpoll
      rw [if_neg (mt hwants.mpr hall)]
      refine ⟨_, h.receive rfl rfl rfl (Nat.le_succ _) hlt hdrop ?_⟩
      simp [Connection.lines, hpc, Receipt.line]

theorem dispatch_not_subscribe {now : Nat} {lastSeenSecs : String → Nat} {handler : RpcHandler}
    {line : String} (hline : ¬ IsSubscribe fromStr line) :
    (∃ sent, (handler.dispatch fromStr now lastSeenSecs line).1.events = handler.events.send sent)
      ∧ ((handler.dispatch fromStr now lastSeenSecs line).2 = .notification
        ∨ ∃ reply, (handler.dispatch fromStr now lastSeenSecs line).2 = .response reply
            ∧ reply.isNotification = false) := by
  cases hreq : fromStr line with
  | error e =>
      rw [RpcHandler.dispatch_error hreq]
      exact ⟨⟨[], by simp [Channel.send]⟩, Or.inr ⟨_, rfl, rfl⟩⟩
  | ok req =>
      have hmethod : req.method ≠ "state.subscribe" := fun h => hline ⟨req, hreq, h⟩
      obtain ⟨reply, sent, hanswers, hevents, hresult⟩ :=
        @RpcHandler.dispatch_ok fromStr now lastSeenSecs handler line req hreq
      refine ⟨⟨sent, hevents⟩, ?_⟩
      rw [hresult, if_neg hmethod]
      split
      · exact Or.inl rfl
      · refine Or.inr ⟨reply, rfl, ?_⟩
        have hid := hanswers.replyId
        cases reply with
        | notification n => simp [Outgoing.id] at hid
        | response r => rfl
        | error e => rfl

theorem dispatched_handleLine {now : Nat} {lastSeenSecs : String → Nat} {bytes : List UInt8}
    {text : List Char} (hdecode : Lines.decode bytes = some text) (hblank : Lines.trim text ≠ []) :
    (handleLine fromStr now lastSeenSecs c bytes).dispatched
      = c.dispatched ++ [String.ofList (Lines.trim text)] := by
  simp only [handleLine, hdecode, if_neg hblank]
  split <;> rfl

theorem Accounted.unchanged
    (h : Accounted start subPrefix earlier response receiver receipts c)
    (hsubscription : c'.subscription = c.subscription) (hsubPrefix : c'.subPrefix = c.subPrefix)
    (hevents : c'.handler.events = c.handler.events) (hlines : c'.lines = c.lines) :
    Accounted start subPrefix earlier response receiver receipts c' := by
  have hsent : c'.handler.events = c.handler.events.send [] := by
    rw [hevents, Channel.send, List.append_nil]
  have hreplies : c'.lines = c.lines ++ [] := by rw [hlines, List.append_nil]
  exact h.of_others hsubscription hsubPrefix hsent hreplies (by simp)

theorem Accounted.handleLine
    (h : Accounted start subPrefix earlier response receiver receipts c) {taken bytes : List UInt8}
    (hpc : c.pc = .selecting taken) {now : Nat} {lastSeenSecs : String → Nat}
    (hrunning : (handleLine fromStr now lastSeenSecs c bytes).Running)
    (hline : ∀ line, (handleLine fromStr now lastSeenSecs c bytes).dispatched
      = c.dispatched ++ [line] → ¬ IsSubscribe fromStr line) :
    Accounted start subPrefix earlier response receiver receipts
      (handleLine fromStr now lastSeenSecs c bytes) := by
  have hlines := lines_of_selecting hpc
  cases hdecode : Lines.decode bytes with
  | none =>
      refine absurd ?_ (hrunning (.readError .invalidData))
      simp [Connection.handleLine, hdecode]
  | some text =>
      by_cases hblank : Lines.trim text = []
      · simp only [Connection.handleLine, hdecode, if_pos hblank]
        exact h.unchanged rfl rfl rfl (by simp [Connection.lines, hpc])
      · have hnot := hline _ (dispatched_handleLine hdecode hblank)
        obtain ⟨⟨sent, hsent⟩, hresult⟩ :=
          @dispatch_not_subscribe fromStr now lastSeenSecs c.handler _ hnot
        simp only [Connection.handleLine, hdecode, if_neg hblank]
        obtain hnone | ⟨reply, hreply, hresponse⟩ := hresult
        · simp only [hnone]
          refine h.of_others rfl rfl hsent (?_ : _ = c.lines ++ []) (by simp)
          simp [Connection.lines, hpc]
        · simp only [hreply]
          refine h.of_others rfl rfl hsent (?_ : _ = c.lines ++ [reply]) (by simpa using hresponse)
          simp [Connection.lines, hpc]

theorem running_of_step {a : ConnectionAction} (hstep : c.step fromStr a = some c')
    (hrunning : c'.Running) : c.Running := by
  cases step_spec hstep with
  | around hpc hbuffer hbytes hclosed hdispatched =>
      intro exit
      rw [← hpc]
      exact hrunning exit
  | read hpc hpoll => exact running_of_selecting hpc
  | event hpc hsame hrunning' htaken => exact running_of_selecting hpc
  | wrote hpc hsame hpc' => exact running_of_writing hpc
  | ended hsame hpc' heof hvalid => exact absurd hpc' (hrunning _)

theorem dispatched_prefix_handleLine {now : Nat} {lastSeenSecs : String → Nat}
    {bytes : List UInt8} :
    c.dispatched <+: (handleLine fromStr now lastSeenSecs c bytes).dispatched := by
  cases hdecode : Lines.decode bytes with
  | none => simp [handleLine, hdecode]
  | some text =>
      by_cases hblank : Lines.trim text = []
      · simp [handleLine, hdecode, hblank]
      · rw [dispatched_handleLine hdecode hblank]
        exact List.prefix_append _ _

theorem dispatched_prefix_step {a : ConnectionAction} (hstep : c.step fromStr a = some c') :
    c.dispatched <+: c'.dispatched := by
  cases step_spec hstep with
  | around hpc hbuffer hbytes hclosed hdispatched => exact hdispatched ▸ List.prefix_rfl
  | read hpc hpoll =>
      obtain ⟨before, after, inbox, -, -, rfl⟩ | ⟨available, inbox, -, -, -, rfl⟩
          | ⟨-, -, ⟨-, rfl⟩ | ⟨-, rfl⟩⟩ := pollReadLine_cases hpoll
      · exact dispatched_prefix_handleLine (c := { c with inbox := inbox, buffer := after })
      · exact List.prefix_rfl
      · exact List.prefix_rfl
      · exact dispatched_prefix_handleLine (c := { c with inbox := [], buffer := [] })
  | event hpc hsame hrunning' htaken => exact hsame.dispatched ▸ List.prefix_rfl
  | wrote hpc hsame hpc' => exact hsame.dispatched ▸ List.prefix_rfl
  | ended hsame hpc' heof hvalid => exact hsame.dispatched ▸ List.prefix_rfl

/-- The lines dispatched since the first `n` do not subscribe. -/
def NoSubscribe (fromStr : String → Except String RpcRequest) (n : Nat) (c : Connection) : Prop :=
  ∀ line ∈ c.dispatched.drop n, ¬ IsSubscribe fromStr line

theorem Accounted.pollReadLine
    (h : Accounted start subPrefix earlier response receiver receipts c) {taken : List UInt8}
    (hpc : c.pc = .selecting taken) {n now : Nat} {lastSeenSecs : String → Nat}
    (hpoll : c.pollReadLine fromStr n now lastSeenSecs taken = some c') (hrunning : c'.Running)
    (hline : NoSubscribe fromStr c.dispatched.length c') :
    Accounted start subPrefix earlier response receiver receipts c' := by
  have hserved {c₀ : Connection} (hsame : c₀.dispatched = c.dispatched) {line : String}
      (hdispatched : c'.dispatched = c₀.dispatched ++ [line]) : ¬ IsSubscribe fromStr line := by
    apply hline
    rw [hdispatched, hsame, List.drop_left]
    exact List.mem_singleton_self line
  obtain ⟨before, after, inbox, -, -, rfl⟩ | ⟨available, inbox, -, -, -, rfl⟩
      | ⟨-, -, ⟨-, rfl⟩ | ⟨-, rfl⟩⟩ := pollReadLine_cases hpoll
  · have hbuffered : Accounted start subPrefix earlier response receiver receipts
        { c with inbox := inbox, buffer := after } := h.unchanged rfl rfl rfl rfl
    exact hbuffered.handleLine hpc hrunning fun line => hserved rfl
  · exact h.unchanged rfl rfl rfl (by simp [Connection.lines, hpc])
  · exact absurd rfl (hrunning .eof)
  · have hbuffered : Accounted start subPrefix earlier response receiver receipts
        { c with inbox := [], buffer := [] } := h.unchanged rfl rfl rfl rfl
    exact hbuffered.handleLine hpc hrunning fun line => hserved rfl

/-- **A step keeps the accounts**, as long as the connection does not end and nobody subscribes
anew. -/
theorem Accounted.step (h : Accounted start subPrefix earlier response receiver receipts c)
    {a : ConnectionAction} (hstep : c.step fromStr a = some c') (hrunning : c'.Running)
    (hline : NoSubscribe fromStr c.dispatched.length c') :
    ∃ receiver', Accounted start subPrefix earlier response receiver'
      (receipts ++ c.receipt subPrefix a) c' := by
  have hnone (ha : c.receipt subPrefix a = [])
      (h' : Accounted start subPrefix earlier response receiver receipts c') :
      ∃ receiver', Accounted start subPrefix earlier response receiver'
        (receipts ++ c.receipt subPrefix a) c' := by
    rw [ha, List.append_nil]
    exact ⟨receiver, h'⟩
  cases moves_of_step hstep with
  | event hpc hpoll => exact h.pollSubscription hpc hpoll
  | arrive hn => exact hnone rfl (h.unchanged rfl rfl rfl rfl)
  | close hunsent => exact hnone rfl (h.unchanged rfl rfl rfl rfl)
  | fill hpc hpoll => exact hnone rfl (h.pollReadLine hpc hpoll hrunning hline)
  | wrote hpc => exact hnone rfl (h.unchanged rfl rfl rfl (by simp [Connection.lines, hpc]))
  | writeFailed hpc => exact absurd rfl (hrunning .writeError)
  | cancelled hpc => exact absurd rfl (hrunning .cancelled)
  | readFailed hpc => exact absurd rfl (hrunning (.readError .broken))
  | others => exact hnone rfl (h.of_others rfl rfl rfl (List.append_nil _).symm (by simp))

/-! ### From the subscription on -/

theorem accounted_of_subscribe {bytes : List UInt8} {now : Nat} {lastSeenSecs : String → Nat}
    {line : String} {req : RpcRequest}
    (hdispatched : (handleLine fromStr now lastSeenSecs c bytes).dispatched
      = c.dispatched ++ [line])
    (hreq : fromStr line = .ok req) (hmethod : req.method = "state.subscribe") :
    ∃ response, Answers req (req.id.getD .null) response
      ∧ Accounted c.handler.events.sent.length ((req.params.get "prefix").bind Value.asStr)
          c.written response c.handler.events.subscribe []
          (handleLine fromStr now lastSeenSecs c bytes) := by
  cases hdecode : Lines.decode bytes with
  | none => simp [handleLine, hdecode] at hdispatched
  | some text =>
      by_cases hblank : Lines.trim text = []
      · simp [handleLine, hdecode, hblank] at hdispatched
      · obtain rfl : String.ofList (Lines.trim text) = line := by
          rw [dispatched_handleLine hdecode hblank] at hdispatched
          simpa using hdispatched
        obtain ⟨response, _, hanswers, _, hresult⟩ :=
          @RpcHandler.dispatch_ok fromStr now lastSeenSecs c.handler _ req hreq
        have hhandler : (c.handler.dispatch fromStr now lastSeenSecs
            (String.ofList (Lines.trim text))).1 = c.handler := by
          rw [RpcHandler.dispatch_eq hreq, if_pos hmethod]
        rw [if_pos hmethod] at hresult
        refine ⟨response, hanswers, ?_⟩
        simp only [handleLine, hdecode, if_neg hblank, hresult, hhandler]
        exact
          { subscribed := rfl
            matching := rfl
            started := le_rfl
            sent := le_rfl
            events := rfl
            lines := ⟨[], by simp [lines], rfl⟩ }

theorem dispatched_prefix_run {as : List ConnectionAction}
    (hrun : Machine.run (step fromStr) c as = some c') : c.dispatched <+: c'.dispatched :=
  Machine.run_rel (R := fun c c' : Connection => c.dispatched <+: c'.dispatched)
    (fun _ => List.prefix_rfl) (fun _ _ _ h h' => h.trans h')
    (fun _ _ _ hstep => dispatched_prefix_step hstep) hrun

theorem running_of_run {as : List ConnectionAction}
    (hrun : Machine.run (step fromStr) c as = some c') (hrunning : c'.Running) : c.Running :=
  Machine.run_rel (R := fun c c' : Connection => c'.Running → c.Running) (fun _ => id)
    (fun _ _ _ h h' => h ∘ h') (fun _ _ _ hstep => running_of_step hstep) hrun hrunning

theorem run_accounted (h : Accounted start subPrefix earlier response receiver receipts c)
    {as : List ConnectionAction} (hrun : Machine.run (step fromStr) c as = some c')
    (hrunning : c'.Running) (hline : NoSubscribe fromStr c.dispatched.length c') :
    ∃ receiver', Accounted start subPrefix earlier response receiver'
      (receipts ++ Machine.trace (step fromStr) (receipt subPrefix) c as) c' := by
  induction as generalizing c receiver receipts with
  | nil =>
      obtain rfl := Option.some.inj hrun
      exact ⟨receiver, (List.append_nil receipts).symm ▸ h⟩
  | cons a as ih =>
      obtain ⟨u, hu, htail⟩ := Machine.run_cons_eq_some.mp hrun
      obtain ⟨more, hmore⟩ := dispatched_prefix_run htail
      have hlength := (dispatched_prefix_step hu).length_le
      have hfirst : NoSubscribe fromStr c.dispatched.length u := by
        intro line hmem
        apply hline
        rw [← hmore, List.drop_append_of_le_length hlength]
        exact List.mem_append_left _ hmem
      obtain ⟨receiver', hu'⟩ := h.step hu (running_of_run htail hrunning) hfirst
      have hrest : NoSubscribe fromStr u.dispatched.length c' :=
        fun line hmem => hline line (List.drop_subset_drop_left _ hlength hmem)
      rw [Machine.trace, hu, ← List.append_assoc]
      exact ih hu' htail hrest

/-- **Nothing is lost silently.** From a subscription on, until the next one or the end of the
connection, what was broadcast is what the receipts of the polls cover and what is still to be
received, each receipt is the one its poll has to be, and the response to the subscription comes
before the notifications, which are those of the receipts. -/
theorem subscription_accounted {a : ConnectionAction} (hstep : c.step fromStr a = some c')
    {line : String} {req : RpcRequest} (hdispatched : c'.dispatched = c.dispatched ++ [line])
    (hreq : fromStr line = .ok req) (hmethod : req.method = "state.subscribe")
    {as : List ConnectionAction} {final : Connection}
    (hrun : Machine.run (step fromStr) c' as = some final) (hrunning : final.Running)
    (honly : NoSubscribe fromStr c'.dispatched.length final) :
    ∃ response receiver, Answers req (req.id.getD .null) response
      ∧ Accounted c.handler.events.sent.length ((req.params.get "prefix").bind Value.asStr)
          c.written response receiver
          (Machine.trace (step fromStr) (receipt ((req.params.get "prefix").bind Value.asStr))
            c' as) final := by
  have hstart : ∃ response, Answers req (req.id.getD .null) response
      ∧ Accounted c.handler.events.sent.length ((req.params.get "prefix").bind Value.asStr)
          c.written response c.handler.events.subscribe [] c' := by
    cases step_spec hstep with
    | around _ hbuffer hbytes hclosed hsame => simp [hsame] at hdispatched
    | event hpc hsame hrunning' htaken => simp [hsame.dispatched] at hdispatched
    | wrote hpc hsame hpc' => simp [hsame.dispatched] at hdispatched
    | ended hsame hpc' heof hvalid => simp [hsame.dispatched] at hdispatched
    | read hpc hpoll =>
        obtain ⟨before, after, inbox, -, -, rfl⟩ | ⟨available, inbox, -, -, -, rfl⟩
            | ⟨-, -, ⟨-, rfl⟩ | ⟨-, rfl⟩⟩ := pollReadLine_cases hpoll
        · exact accounted_of_subscribe (c := { c with inbox := inbox, buffer := after })
            hdispatched hreq hmethod
        · simp at hdispatched
        · simp at hdispatched
        · exact accounted_of_subscribe (c := { c with inbox := [], buffer := [] })
            hdispatched hreq hmethod
  obtain ⟨response, hanswers, h⟩ := hstart
  obtain ⟨receiver, hfinal⟩ := run_accounted h hrun hrunning honly
  exact ⟨response, receiver, hanswers, hfinal⟩

/-- More is sent before the response is written than the channel retains. The first event is
reported as dropped and the second one forwarded. -/
def overrun : List ConnectionAction :=
  [otherSet, otherSet, otherSet, otherSet, otherSet, .write true, .event, .write true, .event]

theorem subscription_accounted_overrun :
    ∃ final response receiver,
      Accounted 0 none [] response receiver
        [.dropped [⟨"k", ⟨"v", 5, "a"⟩⟩], .forwarded ⟨"k", ⟨"v", 5, "a"⟩⟩] final
      ∧ final.lines.length = 3 := by
  have hany : (Machine.run (step requestOf) (new idleHandler (subscribeLine.toList ++ ['\n']))
      [.arrive (subscribeLine.length + 1)]).any fun c =>
        (c.step requestOf (.fill 200 7 fun _ => 0)).any fun c' =>
          (Machine.run (step requestOf) c' overrun).any fun final =>
            c.dispatched = [] ∧ c.written.length = 0 ∧ c.handler.events.sent = []
              ∧ c'.dispatched = [subscribeLine] ∧ final.dispatched = [subscribeLine]
              ∧ final.written.length = 2 ∧ final.lines.length = 3
              ∧ Machine.trace (step requestOf) (receipt none) c' overrun
                = [.dropped [⟨"k", ⟨"v", 5, "a"⟩⟩], .forwarded ⟨"k", ⟨"v", 5, "a"⟩⟩] := by
    decide +kernel
  obtain ⟨c, _, hany⟩ := (Option.any_eq_true _ _).mp hany
  obtain ⟨c', hstep, hany⟩ := (Option.any_eq_true _ _).mp hany
  obtain ⟨final, hrun, hfinal⟩ := (Option.any_eq_true _ _).mp hany
  obtain ⟨hnone, hwritten, hsent, hone, hone', hlength, hlines, htrace⟩ := of_decide_eq_true hfinal
  have hreq : requestOf subscribeLine = .ok
      { jsonrpc := "2.0", method := "state.subscribe", params := .null, id := some (.ofNat 1) } :=
    rfl
  have hrunning : final.Running := by
    intro exit hpc
    simp [lines, hpc, hlength] at hlines
  have honly : NoSubscribe requestOf c'.dispatched.length final := by
    intro line hline
    simp [hone, hone'] at hline
  obtain ⟨response, receiver, _, h⟩ := subscription_accounted hstep
    (by rw [hone, hnone, List.nil_append]) hreq rfl hrun hrunning honly
  have hprefix : (Value.null.get "prefix").bind Value.asStr = none := rfl
  rw [hsent, List.length_eq_zero_iff.mp hwritten, hprefix, htrace] at h
  exact ⟨final, response, receiver, h, hlines⟩

end Connection

end StateSync
