import StateSync.Proof.Effects
import StateSync.Proof.Requests
import StateSync.Proof.Subscriptions
import StateSync.Proof.StoreInvariant
import StateSync.Rpc.Connections

/-!
# The store behind the connections

Whatever the connections, the other tasks and the accept loop do, the store goes through a run of
its own, and a connection that has dispatched a `state.set` sees the store as the call left it.
-/

namespace StateSync

variable {fromStr : String → Except String RpcRequest}

theorem RpcRequest.setCall_eq_some {req : RpcRequest} {key value : String} :
    req.setCall = some (key, value) ↔ req.Sets key value := by
  have hparam {field s : String} : (req.params.get field).bind Value.asStr = some s
      ↔ req.params.get field = some (.string s) := by
    simp [Option.bind_eq_some_iff, Value.asStr_eq_some]
  unfold setCall
  constructor
  · intro h
    simp only [Option.ite_none_right_eq_some, Option.bind_eq_bind, Option.bind_eq_some_iff,
      Option.some.injEq, Prod.mk.injEq] at h
    obtain ⟨hmethod, k, hk, v, hv, rfl, rfl⟩ := h
    exact ⟨hmethod, hparam.mp (Option.bind_eq_some_iff.mpr hk),
      hparam.mp (Option.bind_eq_some_iff.mpr hv)⟩
  · intro h
    rw [if_pos h.method]
    simp [hparam.mpr h.keyParam, hparam.mpr h.valueParam]

namespace RpcServer

variable {server server' : RpcServer}

/-- Everything a step of the server can be: a step of the store, one that concerns neither the store
nor a connection, a new connection, or a step of a connection with the call of `set` it makes. -/
theorem step_cases {a : ServerAction} (hstep : server.step fromStr a = some server') :
    (∃ sa live, a = .store sa ∧ server.live.step sa = some live
        ∧ server' = { server with live := live })
      ∨ ((∀ i ca, a ≠ .connection i ca) ∧ server'.live = server.live
        ∧ server'.connections = server.connections)
      ∨ (∃ text, a = .accept text ∧ server' = { server with connections := server.connections
          ++ [{ connection := Connection.new server.handler text, calling := none }] })
      ∨ ∃ i ca served c' live, a = .connection i ca ∧ server.connections[i]? = some served
          ∧ { served.connection with handler := server.handler }.step fromStr ca = some c'
          ∧ perform server.live (clock ca)
              (setCall fromStr { served.connection with handler := server.handler } c') = some live
          ∧ server'.live = live
          ∧ ∃ calling, server'.connections
              = server.connections.set i { connection := c', calling := calling } := by
  cases a with
  | store sa =>
      obtain ⟨live, hlive, rfl⟩ := Option.map_eq_some_iff.mp hstep
      exact Or.inl ⟨sa, live, rfl, hlive, rfl⟩
  | peers peers =>
      obtain rfl := Option.some.inj hstep
      exact Or.inr (Or.inl ⟨by simp, rfl, rfl⟩)
  | accept text =>
      simp only [step, Option.ite_none_right_eq_some, Option.some.injEq] at hstep
      exact Or.inr (Or.inr (Or.inl ⟨text, rfl, hstep.2.symm⟩))
  | connection i ca =>
      simp only [step, Option.bind_eq_bind, Option.bind_eq_some_iff,
        Option.ite_none_right_eq_some, Option.some.injEq] at hstep
      obtain ⟨served, hserved, _, c', hc', live, hlive, rfl⟩ := hstep
      exact Or.inr (Or.inr (Or.inr
        ⟨i, ca, served, c', live, rfl, hserved, hc', hlive, rfl, _, rfl⟩))
  | cancel =>
      obtain rfl := Option.some.inj hstep
      exact Or.inr (Or.inl ⟨by simp, rfl, rfl⟩)
  | shutDown =>
      simp only [step, Option.ite_none_right_eq_some, Option.some.injEq] at hstep
      obtain ⟨_, rfl⟩ := hstep
      exact Or.inr (Or.inl ⟨by simp, rfl, rfl⟩)

/-! ### A call of `set` in the handler and in the store -/

/-- The handler after a call of `set` that nobody interrupted. -/
def afterCall (handler : RpcHandler) (now : Nat) : Option (String × String) → RpcHandler
  | none => handler
  | some (key, value) =>
      { handler with
        store := (handler.store.set now key value).1
        events := handler.events.send [(handler.store.set now key value).2.2] }

theorem setCall_of_dispatched {c c' : Connection} (hdispatched : c'.dispatched = c.dispatched) :
    setCall fromStr c c' = none := by
  simp [setCall, hdispatched]

theorem setCall_of_line {c c' : Connection} {line : String}
    (hdispatched : c'.dispatched = c.dispatched ++ [line]) :
    setCall fromStr c c' = lineCall fromStr line := by
  simp [setCall, hdispatched]

theorem fst_dispatch (handler : RpcHandler) (now : Nat) (lastSeenSecs : String → Nat)
    (line : String) : (handler.dispatch fromStr now lastSeenSecs line).1
      = afterCall handler now (lineCall fromStr line) := by
  unfold lineCall
  cases hreq : fromStr line with
  | error e =>
      rw [RpcHandler.dispatch_error hreq]
      rfl
  | ok req =>
      simp only
      cases hcall : req.setCall with
      | none =>
          apply RpcHandler.dispatch_of_not_sets
          intro req' key value hreq' hsets
          obtain rfl := Except.ok.inj (hreq.symm.trans hreq')
          rw [RpcRequest.setCall_eq_some.mpr hsets] at hcall
          simp at hcall
      | some call =>
          have hsets := RpcRequest.setCall_eq_some.mp hcall
          have hne : req.method ≠ "state.subscribe" := by simp [hsets.method]
          have hanswer : handler.answer now lastSeenSecs req (req.id.getD .null)
              = handler.handleStateSet now req.params (req.id.getD .null) := by
            simp [RpcHandler.answer, hsets.method]
          rw [RpcHandler.dispatch_eq hreq, if_neg hne, hanswer,
            RpcHandler.handleStateSet_of_sets hsets]
          rfl

theorem handler_handleLine (c : Connection) (now : Nat) (lastSeenSecs : String → Nat)
    (bytes : List UInt8) : (Connection.handleLine fromStr now lastSeenSecs c bytes).handler
      = afterCall c.handler now
          (setCall fromStr c (Connection.handleLine fromStr now lastSeenSecs c bytes)) := by
  cases hdecode : Lines.decode bytes with
  | none =>
      rw [setCall_of_dispatched (by simp [Connection.handleLine, hdecode])]
      simp [Connection.handleLine, hdecode, afterCall]
  | some text =>
      by_cases hblank : Lines.trim text = []
      · rw [setCall_of_dispatched (by simp [Connection.handleLine, hdecode, hblank])]
        simp [Connection.handleLine, hdecode, hblank, afterCall]
      · rw [setCall_of_line (Connection.dispatched_handleLine hdecode hblank), ← fst_dispatch]
        simp only [Connection.handleLine, hdecode, if_neg hblank]
        split <;> rfl

theorem handler_of_same {c c' : Connection} (hhandler : c'.handler = c.handler)
    (hdispatched : c'.dispatched = c.dispatched) (now : Nat) :
    c'.handler = afterCall c.handler now (setCall fromStr c c') := by
  rw [setCall_of_dispatched hdispatched]
  exact hhandler

theorem handler_pollReadLine {c c' : Connection} {taken : List UInt8} {n now : Nat}
    {lastSeenSecs : String → Nat}
    (hpoll : c.pollReadLine fromStr n now lastSeenSecs taken = some c') :
    c'.handler = afterCall c.handler now (setCall fromStr c c') := by
  obtain ⟨before, after, inbox, -, -, rfl⟩ | ⟨available, inbox, -, -, -, rfl⟩
      | ⟨-, -, ⟨-, rfl⟩ | ⟨-, rfl⟩⟩ := Connection.pollReadLine_cases hpoll
  · exact handler_handleLine { c with inbox := inbox, buffer := after } now lastSeenSecs _
  · exact handler_of_same rfl rfl now
  · exact handler_of_same rfl rfl now
  · exact handler_handleLine { c with inbox := [], buffer := [] } now lastSeenSecs _

theorem handler_pollSubscription {c c' : Connection} (hpoll : c.pollSubscription = some c') :
    c'.handler = c.handler := by
  simp only [Connection.pollSubscription, Option.bind_eq_bind, Option.bind_eq_some_iff] at hpoll
  obtain ⟨receiver, -, ⟨polled, receiver'⟩, -, hpoll⟩ := hpoll
  cases polled with
  | value ev =>
      simp only at hpoll
      split at hpoll
      · obtain rfl := Option.some.inj hpoll
        rfl
      · obtain rfl := Option.some.inj hpoll
        rfl
  | lagged missed =>
      obtain rfl := Option.some.inj hpoll
      rfl

theorem toStateStore_perform {live live' : LiveStore} {now : Nat} {key value : String}
    (hperform : perform live now (some (key, value)) = some live') :
    live'.toStateStore = (live.toStateStore.set now key value).1 := by
  obtain ⟨called, hcalled, hadvance⟩ := Machine.run_cons_eq_some.mp hperform
  obtain rfl := Option.some.inj hcalled
  simp only [Machine.run, LiveStore.step, List.getElem?_concat_length, Option.bind_eq_bind,
    Option.bind_some, Task.advance, Option.some.injEq] at hadvance
  subst hadvance
  rfl

/-- **A connection sees its own call.** After any step it may take, its handler has the store that
the call of `set` in that step, if there is one, leaves behind. -/
theorem store_perform {c c' : Connection} {a : ConnectionAction} {live live' : LiveStore}
    (hstep : c.step fromStr a = some c')
    (hothers : ∀ state peers sent, a ≠ .others state peers sent)
    (hstore : c.handler.store = live.toStateStore)
    (hperform : perform live (clock a) (setCall fromStr c c') = some live') :
    c'.handler.store = live'.toStateStore := by
  have hhandler : c'.handler = afterCall c.handler (clock a) (setCall fromStr c c') := by
    cases Connection.moves_of_step hstep with
    | arrive hn => exact handler_of_same rfl rfl _
    | close hunsent => exact handler_of_same rfl rfl _
    | wrote hpc => exact handler_of_same rfl rfl _
    | writeFailed hpc => exact handler_of_same rfl rfl _
    | cancelled hpc => exact handler_of_same rfl rfl _
    | readFailed hpc => exact handler_of_same rfl rfl _
    | others => exact absurd rfl (hothers _ _ _)
    | event hpc hpoll =>
        have hsame := (Connection.pollSubscription_spec hpoll).1
        exact handler_of_same (handler_pollSubscription hpoll) hsame.dispatched _
    | fill hpc hpoll => exact handler_pollReadLine hpoll
  rw [hhandler]
  cases hcall : setCall fromStr c c' with
  | none =>
      rw [hcall] at hperform
      obtain rfl := Option.some.inj hperform
      exact hstore
  | some call =>
      rw [hcall] at hperform
      rw [toStateStore_perform hperform, ← hstore]
      rfl

theorem exists_run_of_perform {live live' : LiveStore} {now : Nat}
    {call : Option (String × String)} (hperform : perform live now call = some live') :
    ∃ bs, Machine.run LiveStore.step live bs = some live' := by
  cases call with
  | none => exact ⟨[], hperform⟩
  | some call => exact ⟨_, hperform⟩

/-- **The store of the server is a store**: its part of every run is a run of its own. -/
theorem run_live {nodeId : String} {capacity : Nat} {as : List ServerAction} {final : RpcServer}
    (hrun : Machine.run (step fromStr) (new nodeId capacity) as = some final) :
    ∃ bs, Machine.run LiveStore.step (LiveStore.new nodeId) bs = some final.live := by
  refine Machine.run_invariant (P := fun server =>
    ∃ bs, Machine.run LiveStore.step (LiveStore.new nodeId) bs = some server.live) ?_
    ⟨[], rfl⟩ hrun
  rintro server a server' ⟨bs, hbs⟩ hstep
  obtain ⟨sa, live, _, hlive, rfl⟩ | ⟨_, hlive, _⟩ | ⟨text, _, rfl⟩
    | ⟨i, ca, served, c', live, _, _, _, hlive, rfl, _⟩ := step_cases hstep
  · exact ⟨bs ++ [sa], Machine.run_concat_eq_some.mpr ⟨_, hbs, hlive⟩⟩
  · exact ⟨bs, hlive ▸ hbs⟩
  · exact ⟨bs, hbs⟩
  · obtain ⟨more, hmore⟩ := exists_run_of_perform hlive
    exact ⟨bs ++ more, Machine.run_append_eq_some.mpr ⟨_, hbs, hmore⟩⟩

/-- What a step of the server adds to a log of its connection `i`. -/
def logged {β : Type*} (steps : Connection → ConnectionAction → List β) (i : Nat)
    (server : RpcServer) : ServerAction → List β
  | .connection j ca =>
      if j = i then (server.connections[i]?).elim [] fun served =>
        steps { served.connection with handler := server.handler } ca
      else []
  | _ => []

theorem logged_of_ne {β : Type*} {steps : Connection → ConnectionAction → List β} {i : Nat}
    {a : ServerAction} (ha : ∀ ca, a ≠ .connection i ca) : logged steps i server a = [] := by
  cases a with
  | connection j ca =>
      have hne : j ≠ i := by
        rintro rfl
        exact ha ca rfl
      rw [logged, if_neg hne]
  | _ => rfl

/-- **The rule for connections.** What holds of a new connection and an empty log, whatever it
serves, and what each step of it keeps with what the step adds to the log, holds of every connection
of the server and its log. -/
theorem run_connections {β : Type*} {steps : Connection → ConnectionAction → List β}
    {P : List β → Connection → Prop}
    (hnew : ∀ handler text, P [] (Connection.new handler text))
    (hhandler : ∀ log c handler, P log c → P log { c with handler := handler })
    (hstep : ∀ log c a c', P log c → c.step fromStr a = some c' → P (log ++ steps c a) c')
    {nodeId : String} {capacity : Nat} {as : List ServerAction} {final : RpcServer}
    (hrun : Machine.run (step fromStr) (new nodeId capacity) as = some final) (i : Nat) :
    ∀ served, final.connections[i]? = some served →
      P (Machine.trace (step fromStr) (logged steps i) (new nodeId capacity) as)
        served.connection := by
  -- before the connection is there, nothing is logged for it
  suffices h : (final.connections[i]? = none →
      Machine.trace (step fromStr) (logged steps i) (new nodeId capacity) as = [])
      ∧ ∀ served, final.connections[i]? = some served →
        P (Machine.trace (step fromStr) (logged steps i) (new nodeId capacity) as)
          served.connection from h.2
  refine Machine.run_induction (P := fun as server => (server.connections[i]? = none →
      Machine.trace (step fromStr) (logged steps i) (new nodeId capacity) as = [])
      ∧ ∀ served, server.connections[i]? = some served →
        P (Machine.trace (step fromStr) (logged steps i) (new nodeId capacity) as)
          served.connection) ?_ ?_ hrun
  · exact ⟨fun _ => rfl, by simp [new]⟩
  · rintro as server a server' has ⟨hnone, hsome⟩ hserver
    rw [Machine.trace_concat a has]
    obtain ⟨sa, live, rfl, _, rfl⟩ | ⟨ha, _, hconnections⟩ | ⟨text, rfl, rfl⟩
      | ⟨j, ca, served, c', live, rfl, hserved, hc', _, _, calling, hconnections⟩ :=
      step_cases hserver
    · rw [logged_of_ne (by simp), List.append_nil]
      exact ⟨hnone, hsome⟩
    · rw [logged_of_ne (ha i), List.append_nil, hconnections]
      exact ⟨hnone, hsome⟩
    · rw [logged_of_ne (by simp), List.append_nil]
      constructor
      · intro hi
        apply hnone
        rw [List.getElem?_eq_none_iff] at hi ⊢
        rw [List.length_append] at hi
        omega
      · intro s hs
        obtain hs | ⟨rfl, rfl⟩ := Slots.getElem?_concat_cases hs
        · exact hsome s hs
        · rw [hnone (List.getElem?_eq_none_iff.mpr le_rfl)]
          exact hnew _ text
    · rw [hconnections]
      by_cases hji : j = i
      · subst hji
        have hlt : j < server.connections.length := (List.getElem?_eq_some_iff.mp hserved).1
        have hlog : logged steps j server (.connection j ca)
            = steps { served.connection with handler := server.handler } ca := by
          simp [logged, hserved]
        rw [hlog, List.getElem?_set_self hlt]
        refine ⟨by simp, ?_⟩
        rintro s ⟨⟩
        exact hstep _ _ ca c' (hhandler _ _ server.handler (hsome served hserved)) hc'
      · have hne : ∀ ca', ServerAction.connection j ca ≠ .connection i ca' := by
          simp [hji]
        rw [logged_of_ne hne, List.append_nil, List.getElem?_set_ne hji]
        exact ⟨hnone, hsome⟩

end RpcServer

end StateSync
