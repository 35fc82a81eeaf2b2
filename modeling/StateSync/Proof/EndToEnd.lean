import StateSync.Proof.Clocks
import StateSync.Proof.CatchUp
import StateSync.Proof.Engine

/-!
# From one client to another

What a client is told was written by a client: through the store, gossip, restarts and lag, every
entry that reaches a follower is the key and the value of a `state.set` that some connection of the
node it names dispatched at its timestamp.
-/

namespace StateSync

open Register

/-! ### One store -/

/-- Everything offered to the store, in it, or sent by it has a property. -/
structure LiveStore.All (P : String → LwwValue → Prop) (live : LiveStore) : Prop where
  called : ∀ task ∈ live.tasks, ∀ entry ∈ task.origin.offering, P entry.1 entry.2
  shows : ∀ k v, live.Shows k v → P k v

namespace LiveStore.All

variable {P Q : String → LwwValue → Prop} {live live' : LiveStore}

theorem mono (h : live.All P) (hPQ : ∀ k v, P k v → Q k v) : live.All Q where
  called := fun task htask entry hentry => hPQ _ _ (h.called task htask entry hentry)
  shows := fun k v hv => hPQ k v (h.shows k v hv)

theorem new (P : String → LwwValue → Prop) (nodeId : String) : (LiveStore.new nodeId).All P where
  called := fun _ htask => absurd htask List.not_mem_nil
  shows := by
    rintro k v (hget | ⟨task, htask, _⟩ | hevent)
    · simp [LiveStore.new, StateStore.new, StateStore.get] at hget
    · exact absurd htask List.not_mem_nil
    · exact absurd hevent List.not_mem_nil

theorem step (h : live.All P) {a : StoreAction} (hstep : live.step a = some live')
    (hset : ∀ key value now, a = .callSet key value now →
      P key (LwwValue.new value live.nodeId now))
    (hmerge : ∀ delta, a = .callMerge delta → ∀ entry ∈ delta, P entry.1 entry.2) :
    live'.All P where
  called := by
    intro task htask entry hentry
    obtain ⟨old, hold, horigin⟩ | ⟨key, value, now, rfl, horigin⟩ | ⟨delta, rfl, horigin⟩ :=
      LiveStore.mem_tasks_step hstep htask
    · exact h.called old hold entry (horigin ▸ hentry)
    · rw [horigin] at hentry
      rw [List.mem_singleton.mp hentry]
      exact hset key value now rfl
    · rw [horigin] at hentry
      exact hmerge delta rfl entry hentry
  shows := by
    intro k v hv
    obtain hold | hget := LiveStore.shows_step hstep hv
    · exact h.shows k v hold
    · obtain hold | ⟨i, task, _, htask, hoffering, _⟩ := LiveStore.get_step hstep hget
      · exact h.shows k v (Or.inl hold)
      · refine h.called task (List.mem_of_getElem? htask) (k, v) ?_
        obtain rfl | ⟨delta, rfl, hdelta⟩ := Task.mem_offering hoffering
        · exact hoffering
        · exact hdelta

end LiveStore.All

/-! ### The cluster -/

namespace Cluster

variable {ι : Type} [DecidableEq ι] {net : Network ι} {c c' : Cluster ι}

/-- The entry is one that a `set` was called with. -/
def Called (net : Network ι) (as : List (Action ι)) (k : String) (v : LwwValue) : Prop :=
  ∃ n, net.ids n = v.nodeId ∧ .callSet n k v.value v.timestamp ∈ as

structure Entries (net : Network ι) (P : String → LwwValue → Prop) (c : Cluster ι) : Prop where
  nodeId : ∀ n, (c.nodes n).live.nodeId = net.ids n
  stores : ∀ n, (c.nodes n).live.All P
  sent : ∀ ex ∈ c.exchanges, ∀ entry ∈ ex.msg.deltas, P entry.1 entry.2

omit [DecidableEq ι] in
theorem NodeSteps.nodeId_eq {a : Action ι} {n : ι} {node : Node} (h : NodeSteps net c a n node)
    (hid : (c.nodes n).live.nodeId = net.ids n) : node.live.nodeId = net.ids n := by
  cases h with
  | store hact hlive => exact (LiveStore.step_nodeId hlive).trans hid
  | accept hact hex hlive => exact (LiveStore.step_nodeId hlive).trans hid
  | restart hact => rfl
  | same => exact hid
  | round hcopies => exact hid
  | register hact hex => exact hid
  | recvAck hact hex hsender hsend hrecv => exact hid

theorem Entries.step {P : String → LwwValue → Prop} (h : Entries net P c) {a : Action ι}
    (hstep : c.step net a = some c')
    (hset : ∀ n key value now, a = .callSet n key value now →
      P key (LwwValue.new value (net.ids n) now)) : Entries net P c' where
  nodeId := fun n => ((step_spec hstep).node n).nodeId_eq (h.nodeId n)
  stores := by
    intro n
    have hnode := (step_spec hstep).node n
    generalize c'.nodes n = node at hnode
    cases hnode with
    | same => exact h.stores n
    | @store sa live hact hlive =>
        refine (h.stores n).step hlive ?_ ?_
        · rintro key value now rfl
          cases a with
          | callSet m k v t =>
              obtain ⟨rfl, rfl, rfl, rfl⟩ : m = n ∧ k = key ∧ v = value ∧ t = now := by
                simpa [Action.storeAction] using hact
              rw [h.nodeId]
              exact hset _ _ _ _ rfl
          | _ => simp [Action.storeAction] at hact
        · rintro delta rfl
          cases a <;> simp [Action.storeAction] at hact
    | @accept x ex live hact hex hlive =>
        refine (h.stores n).step hlive (by simp) ?_
        intro delta heq
        obtain rfl := StoreAction.callMerge.inj heq
        exact h.sent ex (List.mem_of_getElem? hex)
    | round hcopies => exact h.stores n
    | register hact hex => exact h.stores n
    | recvAck hact hex hsender hsend hrecv => exact h.stores n
    | restart hact => exact LiveStore.All.new P _
  sent := by
    intro ex' hex' entry hentry
    obtain ⟨ex, hex, hold⟩ | ⟨n, hget⟩ := (step_spec hstep).sent hex' hentry
    · exact h.sent ex hex entry hold
    · exact (h.stores n).shows entry.1 entry.2 (Or.inl hget)

theorem run_entries {as : List (Action ι)}
    (hrun : Machine.run (step net) (init net) as = some c) : Entries net (Called net as) c := by
  refine Machine.run_induction (P := fun as c => Entries net (Called net as) c) ?_ ?_ hrun
  · exact ⟨fun _ => rfl, fun n => LiveStore.All.new _ _, by simp [init]⟩
  · intro as t a u _ h hstep
    have hmono (k : String) (v : LwwValue) (hv : Called net as k v) :
        Called net (as ++ [a]) k v := by
      obtain ⟨n, hid, hmem⟩ := hv
      exact ⟨n, hid, List.mem_append_left _ hmem⟩
    have hlater : Entries net (Called net (as ++ [a])) t :=
      ⟨h.nodeId, fun n => (h.stores n).mono hmono,
        fun ex hex entry hentry => hmono _ _ (h.sent ex hex entry hentry)⟩
    apply hlater.step hstep
    rintro n key value now rfl
    exact ⟨n, rfl, List.mem_append_right _ (List.mem_singleton.mpr rfl)⟩

end Cluster

/-! ### The clients -/

/-- Every entry that a line of the connection shows has a property. -/
def Connection.Told (P : String → LwwValue → Prop) (c : Connection) : Prop :=
  ∀ line ∈ c.lines, ∀ k v, (k, v) ∈ line.entries → P k v

namespace Connection.Told

variable {P Q : String → LwwValue → Prop} {fromStr : String → Except String RpcRequest}
  {c c' : Connection}

theorem mono (h : c.Told P) (hPQ : ∀ k v, P k v → Q k v) : c.Told Q :=
  fun line hline k v hv => hPQ k v (h line hline k v hv)

theorem of_prefix (h : c.Told P) (hlines : c'.lines <+: c.lines) : c'.Told P :=
  fun line hline => h line (hlines.subset hline)

theorem concat (h : c.Told P) {line : Outgoing} (hlines : c'.lines = c.lines ++ [line])
    (hline : ∀ k v, (k, v) ∈ line.entries → P k v) : c'.Told P := by
  intro shown hshown k v hv
  rw [hlines] at hshown
  obtain hold | hnew := List.mem_append.mp hshown
  · exact h shown hold k v hv
  · rw [List.mem_singleton.mp hnew] at hv
    exact hline k v hv

/-- What a step tells the client is in the store, or is an event that was sent. -/
theorem speaks (h : c.Told P) (live : LiveStore) (hshows : ∀ k v, live.Shows k v → P k v)
    (hstore : c.handler.store = live.toStateStore) (hevents : c.handler.events.sent = live.events)
    (hspeaks : Speaks fromStr c c') : c'.Told P := by
  cases hspeaks with
  | silent hlines hsubscription hmatching => exact h.of_prefix (hlines ▸ List.prefix_rfl)
  | broken hlines hsubscription hended => exact h.of_prefix hlines
  | @forwarded receiver ev hreceiver hev hlines hsubscription hmatching =>
      rw [hevents] at hev
      apply h.concat hlines
      intro k v hv
      obtain ⟨rfl, rfl⟩ := Prod.mk.inj (List.mem_singleton.mp hv)
      exact hshows _ _ (Or.inr (Or.inr (List.mem_of_getElem? hev)))
  | filtered hreceiver hev hunwanted hlines hsubscription hmatching =>
      exact h.of_prefix (hlines ▸ List.prefix_rfl)
  | lagged hlines hsubscription =>
      exact h.concat hlines fun k v hv => absurd hv List.not_mem_nil
  | subscribed hlines hsubscription =>
      exact h.concat hlines fun k v hv => absurd hv List.not_mem_nil
  | synced hreq hmethod hdispatched hlines hsubscription hmatching =>
      apply h.concat hlines
      intro k v hv
      rw [Follower.entries_syncDelta, hstore] at hv
      exact hshows k v (Or.inl (mem_deltaSince.mp hv).1)
  | answered hreply hentries hlines hsubscription hmatching =>
      apply h.concat hlines
      intro k v hv
      have hget := hentries k v hv
      rw [hstore] at hget
      exact hshows k v (Or.inl hget)

theorem new (P : String → LwwValue → Prop) (handler : RpcHandler) (text : List Char) :
    (Connection.new handler text).Told P :=
  fun _ hline => absurd hline List.not_mem_nil

end Connection.Told

namespace Engine

variable {ι : Type} [DecidableEq ι] {dep : Deployment ι} {e e' : Engine ι}

theorem step_told {P : String → LwwValue → Prop} {a : EngineAction ι}
    (hshows : ∀ n k v, (e.cluster.nodes n).live.Shows k v → P k v)
    (h : ∀ n, ∀ served ∈ (e.frontends n).connections, served.connection.Told P)
    (hstep : e.step dep a = some e') :
    ∀ n, ∀ served ∈ (e'.frontends n).connections, served.connection.Told P := by
  have hupdate {m : ι} {frontend : Frontend}
      (hfrontend : ∀ served ∈ frontend.connections, served.connection.Told P) (n : ι) :
      ∀ served ∈ (Function.update e.frontends m frontend n).connections,
        served.connection.Told P :=
    (Function.forall_update_iff e.frontends fun _ frontend =>
      ∀ served ∈ frontend.connections, served.connection.Told P).mpr
      ⟨hfrontend, fun n _ => h n⟩ n
  cases step_spec hstep with
  | gossip ha hset hcluster => exact h
  | restart hcluster => exact hupdate (by simp [Frontend.new])
  | @rpc m b server hstore hpeers hserver =>
      apply hupdate
      obtain ⟨sa, live, _, _, rfl⟩ | ⟨_, _, hconnections⟩ | ⟨text, _, rfl⟩
        | ⟨i, ca, served, c', live, _, hserved, hc', _, _, calling, hconnections⟩ :=
        RpcServer.step_cases hserver
      · exact h m
      · intro s hs
        rw [RpcServer.frontend, hconnections] at hs
        exact h m s hs
      · intro s hs
        obtain hs | hs := List.mem_append.mp hs
        · exact h m s hs
        · rw [List.mem_singleton.mp hs]
          exact Connection.Told.new P _ text
      · intro s hs
        rw [RpcServer.frontend, hconnections] at hs
        obtain hs | rfl := List.mem_or_eq_of_mem_set hs
        · exact h m s hs
        · have hbefore : Connection.Told P
              { served.connection with handler := (e.server m).handler } :=
            h m served (List.mem_of_getElem? hserved)
          exact hbefore.speaks (e.server m).live (hshows m) rfl rfl
            (Connection.speaks_of_step hc')

theorem run_told {as : List (EngineAction ι)}
    (hrun : Machine.run (step dep) (init dep) as = some e) :
    ∀ n, ∀ served ∈ (e.frontends n).connections,
      served.connection.Told (Cluster.Called dep.net (gossipTrace dep as)) := by
  refine Machine.run_induction (P := fun as e => ∀ n, ∀ served ∈ (e.frontends n).connections,
    served.connection.Told (Cluster.Called dep.net (gossipTrace dep as))) ?_ ?_ hrun
  · intro n served hserved
    exact absurd hserved List.not_mem_nil
  · intro as t a u hrun h hstep
    have hmono (k : String) (v : LwwValue) (hv : Cluster.Called dep.net (gossipTrace dep as) k v) :
        Cluster.Called dep.net (gossipTrace dep (as ++ [a])) k v := by
      obtain ⟨n, hid, hmem⟩ := hv
      refine ⟨n, hid, ?_⟩
      rw [gossipTrace, Machine.trace_concat a hrun]
      exact List.mem_append_left _ hmem
    have hentries := Cluster.run_entries (run_cluster hrun)
    refine step_told ?_ (fun n served hserved => (h n served hserved).mono hmono) hstep
    exact fun n k v hv => hmono k v ((hentries.stores n).shows k v hv)

/-- **From one client to another.** In every run of the engine, whatever is lost, whoever lags and
whichever nodes start again, every entry of a store, every entry that a line of any connection
shows, and so every entry of a copy that a client makes of them, is the key and the value of a
`state.set` that a connection of the node it names dispatched at its timestamp. -/
theorem told_by_clients {as : List (EngineAction ι)}
    (hrun : Machine.run (step dep) (init dep) as = some e) :
    (∀ n k v, e.cluster.get n k = some v →
        ∃ m, dep.net.ids m = v.nodeId ∧ Requests dep as m k v.value v.timestamp)
      ∧ (∀ n, ∀ served ∈ (e.frontends n).connections, ∀ line ∈ served.connection.lines,
          ∀ k v, (k, v) ∈ line.entries →
            ∃ m, dep.net.ids m = v.nodeId ∧ Requests dep as m k v.value v.timestamp)
      ∧ ∀ n, ∀ served ∈ (e.frontends n).connections, ∀ received,
          received <+: served.connection.lines →
          ∀ k v, (Follower.after received).mirror.lookup k = some v →
            ∃ m, dep.net.ids m = v.nodeId ∧ Requests dep as m k v.value v.timestamp := by
  have hrequested (k : String) (v : LwwValue)
      (hv : Cluster.Called dep.net (gossipTrace dep as) k v) :
      ∃ m, dep.net.ids m = v.nodeId ∧ Requests dep as m k v.value v.timestamp := by
    obtain ⟨m, hid, hmem⟩ := hv
    exact ⟨m, hid, requests_of_mem hrun hmem⟩
  have hentries := Cluster.run_entries (run_cluster hrun)
  have htold := run_told hrun
  refine ⟨?_, ?_, ?_⟩
  · intro n k v hv
    exact hrequested k v ((hentries.stores n).shows k v (Or.inl hv))
  · intro n served hserved line hline k v hv
    exact hrequested k v (htold n served hserved line hline k v hv)
  · intro n served hserved received hreceived k v hv
    obtain ⟨line, hline, hshown⟩ := Follower.exists_line_of_after hv
    exact hrequested k v (htold n served hserved line (hreceived.subset hline) k v hshown)

/-- A client of the second node subscribes and asks for a delta. Then the first node pushes what its
client wrote, and the second node tells its own. -/
def clientToClient : List (EngineAction Bool) :=
  clientWrites
    ++ [.rpc true (.accept
        (Connection.subscribeLine ++ "\n" ++ RpcServer.deltaLine ++ "\n").toList),
      .rpc true (.connection 0 (.arrive 99)),
      .rpc true (.connection 0 (.fill 100 0 fun _ => 0)), .rpc true (.connection 0 (.write true)),
      .rpc true (.connection 0 (.fill 100 0 fun _ => 0)), .rpc true (.connection 0 (.write true))]
    ++ (Action.roundAlone false [("10.0.0.2:7071", PeerInfo.new "10.0.0.2:7071")]
      [("k", { value := "x", timestamp := 5, nodeId := "node-a" })] 0 true 0 4).map .gossip
    ++ [.rpc true (.connection 0 .event), .rpc true (.connection 0 (.write true))]

theorem told_by_clients_clientToClient :
    ∃ e, Machine.run (step twoServers) (init twoServers) clientToClient = some e
      ∧ ∃ served ∈ (e.frontends true).connections,
        served.connection.follower.mirror.lookup "k"
            = some { value := "x", timestamp := 5, nodeId := "node-a" }
          ∧ ∃ m, twoNodes.ids m = "node-a" ∧ Requests twoServers clientToClient m "k" "x" 5 := by
  have hany : (Machine.run (step twoServers) (init twoServers) clientToClient).any (fun e =>
      (e.frontends true).connections.any fun served =>
        decide (served.connection.follower.mirror.lookup "k"
          = some { value := "x", timestamp := 5, nodeId := "node-a" })) = true := by
    decide +kernel
  obtain ⟨e, hrun, hany⟩ := Machine.exists_of_any_run hany
  obtain ⟨served, hserved, htold⟩ := List.any_eq_true.mp hany
  have htold := of_decide_eq_true htold
  exact ⟨e, hrun, served, hserved, htold, (told_by_clients hrun).2.2 true served hserved
    served.connection.lines List.prefix_rfl "k" _ htold⟩

end Engine

end StateSync
