import StateSync.Engine
import StateSync.Proof.CatchUp
import StateSync.Proof.ClusterSteps

/-!
# The two halves of the engine

Whatever the clients do, the stores, the peer tables and the messages go through a run of the
cluster, in which the calls of `set` are those of the connections. Whatever the other nodes do, the
server of one node goes through a run of a server on its own since the node was started.
-/

namespace StateSync

/-- The call of `set` that a step of connection `i` makes. -/
def RpcServer.callOf (fromStr : String → Except String RpcRequest) (server : RpcServer) (i : Nat)
    (a : ConnectionAction) : Option (String × String) := do
  let served ← server.connections[i]?
  let c := { served.connection with handler := server.handler }
  let c' ← c.step fromStr a
  RpcServer.setCall fromStr c c'

namespace Engine

variable {ι : Type} [DecidableEq ι] {dep : Deployment ι} {e e' : Engine ι}

/-- A step of the engine as the cluster sees it. -/
def gossipSteps (dep : Deployment ι) (e : Engine ι) : EngineAction ι → List (Action ι)
  | .gossip a => [a]
  | .rpc n (.connection i a) =>
      match (e.server n).callOf dep.fromStr i a with
      | some (key, value) =>
          [.callSet n key value (RpcServer.clock a),
            .advance n (e.cluster.nodes n).live.tasks.length]
      | none => []
  | .rpc _ _ => []

/-- A run of the engine as the cluster sees it. -/
def gossipTrace (dep : Deployment ι) (as : List (EngineAction ι)) : List (Action ι) :=
  Machine.trace (step dep) (gossipSteps dep) (init dep) as

/-- What a step of the engine is: a step of the cluster that calls no `set`, with the end of the
connections where it is a restart, or a step of the server of one node. -/
inductive Steps (dep : Deployment ι) (e : Engine ι) : EngineAction ι → Engine ι → Prop
  | gossip {a : Action ι} {cluster : Cluster ι} (ha : ∀ n, a ≠ .restart n)
      (hset : ∀ n key value now, a ≠ .callSet n key value now)
      (hstep : e.cluster.step dep.net a = some cluster) :
      Steps dep e (.gossip a) { e with cluster := cluster }
  | restart {n : ι} {cluster : Cluster ι}
      (hstep : e.cluster.step dep.net (.restart n) = some cluster) :
      Steps dep e (.gossip (.restart n))
        { cluster := cluster
          frontends := Function.update e.frontends n (Frontend.new (dep.capacity n)) }
  | rpc {n : ι} {a : ServerAction} {server : RpcServer} (hstore : ∀ sa, a ≠ .store sa)
      (hpeers : ∀ peers, a ≠ .peers peers)
      (hstep : (e.server n).step dep.fromStr a = some server) :
      Steps dep e (.rpc n a)
        { cluster := e.cluster.setNode n { e.cluster.nodes n with live := server.live }
          frontends := Function.update e.frontends n server.frontend }

theorem step_spec {a : EngineAction ι} (hstep : e.step dep a = some e') : Steps dep e a e' := by
  cases a with
  | gossip a =>
      cases a with
      | callSet n key value now => simp [step] at hstep
      | restart n =>
          rw [step] at hstep
          obtain ⟨cluster, hcluster, rfl⟩ := Option.map_eq_some_iff.mp hstep
          exact Steps.restart hcluster
      | _ =>
          rw [step] at hstep
          · obtain ⟨cluster, hcluster, rfl⟩ := Option.map_eq_some_iff.mp hstep
            exact Steps.gossip (by simp) (by simp) hcluster
          · simp
          · simp
  | rpc n a =>
      cases a with
      | store sa => simp [step] at hstep
      | peers peers => simp [step] at hstep
      | _ =>
          rw [step] at hstep
          · obtain ⟨server, hserver, rfl⟩ := Option.map_eq_some_iff.mp hstep
            exact Steps.rpc (by simp) (by simp) hserver
          · simp
          · simp

/-! ### The cluster -/

theorem run_setNode {c : Cluster ι} {n : ι} {live live' : LiveStore} {key value : String}
    {now : Nat} (hlive : (c.nodes n).live = live)
    (hrun : Machine.run LiveStore.step live
      [.callSet key value now, .advance live.tasks.length] = some live') :
    Machine.run (Cluster.step dep.net) c [.callSet n key value now, .advance n live.tasks.length]
      = some (c.setNode n { c.nodes n with live := live' }) := by
  obtain ⟨called, hcalled, hadvance⟩ := Machine.run_cons_eq_some.mp hrun
  obtain ⟨advanced, hadvanced, hnil⟩ := Machine.run_cons_eq_some.mp hadvance
  obtain rfl := Option.some.inj hnil
  subst hlive
  apply Machine.run_cons_eq_some.mpr
  refine ⟨c.setNode n { c.nodes n with live := called }, ?_, ?_⟩
  · simp [Cluster.step, Cluster.storeStep, hcalled]
  · apply Machine.run_cons_eq_some.mpr
    refine ⟨_, ?_, rfl⟩
    simp [Cluster.step, Cluster.storeStep, Cluster.setNode, hadvanced]

theorem step_cluster {a : EngineAction ι} (hstep : e.step dep a = some e') :
    Machine.run (Cluster.step dep.net) e.cluster (gossipSteps dep e a) = some e'.cluster := by
  cases step_spec hstep with
  | gossip ha hset hcluster => exact Machine.run_cons_eq_some.mpr ⟨_, hcluster, rfl⟩
  | restart hcluster => exact Machine.run_cons_eq_some.mpr ⟨_, hcluster, rfl⟩
  | @rpc n a server hstore hpeers hserver =>
      have hkept (hlive : server.live = (e.cluster.nodes n).live) :
          Machine.run (Cluster.step dep.net) e.cluster []
            = some (e.cluster.setNode n { e.cluster.nodes n with live := server.live }) := by
        rw [hlive]
        simp [Cluster.setNode]
      cases a with
      | store sa => exact absurd rfl (hstore sa)
      | peers peers => exact absurd rfl (hpeers peers)
      | accept text =>
          simp only [RpcServer.step, Option.ite_none_right_eq_some, Option.some.injEq] at hserver
          exact hkept (hserver.2 ▸ rfl)
      | cancel =>
          obtain rfl := Option.some.inj hserver
          exact hkept rfl
      | shutDown =>
          simp only [RpcServer.step, Option.ite_none_right_eq_some, Option.some.injEq] at hserver
          exact hkept (hserver.2 ▸ rfl)
      | connection i ca =>
          simp only [RpcServer.step, Option.bind_eq_bind, Option.bind_eq_some_iff,
            Option.ite_none_right_eq_some, Option.some.injEq] at hserver
          obtain ⟨served, hserved, _, c', hc', live, hlive, rfl⟩ := hserver
          have hcall : (e.server n).callOf dep.fromStr i ca = RpcServer.setCall dep.fromStr
              { served.connection with handler := (e.server n).handler } c' := by
            simp only [RpcServer.callOf, hserved, hc', Option.bind_eq_bind, Option.bind_some]
          rw [gossipSteps, hcall]
          cases hset : RpcServer.setCall dep.fromStr
              { served.connection with handler := (e.server n).handler } c' with
          | none =>
              rw [hset] at hlive
              obtain rfl := Option.some.inj hlive
              exact hkept rfl
          | some call =>
              rw [hset] at hlive
              exact run_setNode rfl hlive

/-- **The stores of the engine are a cluster.** -/
theorem run_cluster {as : List (EngineAction ι)}
    (hrun : Machine.run (step dep) (init dep) as = some e) :
    Machine.run (Cluster.step dep.net) (Cluster.init dep.net) (gossipTrace dep as)
      = some e.cluster :=
  Machine.run_trace Engine.cluster (fun _ _ _ hstep => step_cluster hstep) hrun

/-! ### The server of one node -/

omit [DecidableEq ι] in
theorem server_frontend (e : Engine ι) (n : ι) {server : RpcServer}
    (hpeers : server.peers = (e.server n).peers) :
    { live := server.live, capacity := server.frontend.capacity, peers := (e.server n).peers
      cancelled := server.frontend.cancelled, accepting := server.frontend.accepting
      connections := server.frontend.connections } = server := by
  rw [← hpeers]
  rfl

theorem peers_step {fromStr : String → Except String RpcRequest}
    {server server' : RpcServer} {a : ServerAction} (ha : ∀ peers, a ≠ .peers peers)
    (hstep : server.step fromStr a = some server') : server'.peers = server.peers := by
  cases a with
  | store sa =>
      obtain ⟨live, _, rfl⟩ := Option.map_eq_some_iff.mp hstep
      rfl
  | peers peers => exact absurd rfl (ha peers)
  | accept text =>
      simp only [RpcServer.step, Option.ite_none_right_eq_some, Option.some.injEq] at hstep
      rw [← hstep.2]
  | connection i ca =>
      simp only [RpcServer.step, Option.bind_eq_bind, Option.bind_eq_some_iff,
        Option.ite_none_right_eq_some, Option.some.injEq] at hstep
      obtain ⟨_, _, _, _, _, _, _, rfl⟩ := hstep
      rfl
  | cancel =>
      obtain rfl := Option.some.inj hstep
      rfl
  | shutDown =>
      simp only [RpcServer.step, Option.ite_none_right_eq_some, Option.some.injEq] at hstep
      rw [← hstep.2]

/-- Gossip is a step of the store or a change of the peer table, as the server of a node sees it. -/
theorem server_of_node {c c' : Cluster ι} (frontends : ι → Frontend) {n : ι} {a : Action ι}
    (hsteps : Cluster.Steps dep.net c a c') (ha : a ≠ .restart n) :
    { cluster := c', frontends := frontends : Engine ι }.server n
        = { cluster := c, frontends := frontends : Engine ι }.server n
      ∨ ∃ b, ((∃ sa, b = .store sa) ∨ ∃ peers, b = .peers peers)
        ∧ ({ cluster := c, frontends := frontends : Engine ι }.server n).step dep.fromStr b
          = some ({ cluster := c', frontends := frontends : Engine ι }.server n) := by
  have hnode := hsteps.node n
  simp only [server]
  generalize c'.nodes n = node at hnode
  cases hnode with
  | same => exact Or.inl rfl
  | @store sa live hact hlive =>
      exact Or.inr ⟨.store sa, Or.inl ⟨sa, rfl⟩, by simp [RpcServer.step, hlive]⟩
  | @accept x ex live hact hex hlive =>
      exact Or.inr ⟨.store _, Or.inl ⟨.callMerge ex.msg.deltas, rfl⟩,
        by simp [RpcServer.step, hlive]⟩
  | round hcopies => exact Or.inl rfl
  | register hact hex => exact Or.inr ⟨.peers _, Or.inr ⟨_, rfl⟩, rfl⟩
  | recvAck hact hex hsender hsend hrecv => exact Or.inr ⟨.peers _, Or.inr ⟨_, rfl⟩, rfl⟩
  | restart hact => exact absurd hact ha

theorem step_server {n : ι} {a : EngineAction ι} (ha : a ≠ .gossip (.restart n))
    (hstep : e.step dep a = some e') :
    e'.server n = e.server n
      ∨ ∃ b, (a = .rpc n b ∨ (∃ sa, b = .store sa) ∨ ∃ peers, b = .peers peers)
        ∧ (e.server n).step dep.fromStr b = some (e'.server n) := by
  cases step_spec hstep with
  | @gossip a cluster hrestart hset hcluster =>
      obtain hsame | ⟨b, hb, hserver⟩ := server_of_node e.frontends
        (Cluster.step_spec hcluster) (hrestart n)
      · exact Or.inl hsame
      · exact Or.inr ⟨b, Or.inr hb, hserver⟩
  | @restart m cluster hcluster =>
      have hne : n ≠ m := by
        rintro rfl
        exact ha rfl
      left
      obtain rfl := Option.some.inj hcluster
      simp [server, Function.update_of_ne hne]
  | @rpc m b server hstore hpeers hserver =>
      by_cases hn : n = m
      · subst hn
        refine Or.inr ⟨b, Or.inl rfl, ?_⟩
        rw [hserver, Option.some.injEq]
        have hsame := server_frontend e n (peers_step hpeers hserver)
        simpa [Engine.server, Cluster.setNode] using hsame.symm
      · left
        simp [Engine.server, Cluster.setNode, Function.update_of_ne hn]

omit [DecidableEq ι] in
theorem server_of_new {n : ι} {frontends : ι → Frontend} {c : Cluster ι}
    (hnode : c.nodes n = Node.new (dep.net.config n))
    (hfrontend : frontends n = Frontend.new (dep.capacity n)) :
    (RpcServer.new (dep.net.ids n) (dep.capacity n)).step dep.fromStr
        (.peers (Node.new (dep.net.config n)).peers)
      = some ({ cluster := c, frontends := frontends : Engine ι }.server n) := by
  simp only [server, hnode, hfrontend]
  rfl

/-- The server of a node has gone through a run of its own since the node was started, and what is
known of the steps of its connections is known of them in that run. -/
theorem run_server (n : ι) (guard : RpcServer → ServerAction → Prop)
    (hstores : ∀ server sa, guard server (.store sa))
    (hpeers : ∀ server peers, guard server (.peers peers)) {as : List (EngineAction ι)}
    (hguarded : Machine.Guarded (step dep) (fun e a => ∀ b, a = .rpc n b → guard (e.server n) b)
      (init dep) as)
    (hrun : Machine.run (step dep) (init dep) as = some e) :
    ∃ bs, Machine.run (RpcServer.step dep.fromStr)
        (RpcServer.new (dep.net.ids n) (dep.capacity n)) bs = some (e.server n)
      ∧ Machine.Guarded (RpcServer.step dep.fromStr) guard
        (RpcServer.new (dep.net.ids n) (dep.capacity n)) bs := by
  have hstart {e : Engine ι} (hnode : e.cluster.nodes n = Node.new (dep.net.config n))
      (hfrontend : e.frontends n = Frontend.new (dep.capacity n)) :
      ∃ bs, Machine.run (RpcServer.step dep.fromStr)
          (RpcServer.new (dep.net.ids n) (dep.capacity n)) bs = some (e.server n)
        ∧ Machine.Guarded (RpcServer.step dep.fromStr) guard
          (RpcServer.new (dep.net.ids n) (dep.capacity n)) bs :=
    ⟨[.peers (Node.new (dep.net.config n)).peers],
      Machine.run_cons_eq_some.mpr ⟨_, server_of_new hnode hfrontend, rfl⟩,
      hpeers _ _, fun _ _ => trivial⟩
  refine Machine.run_invariant_of_guarded (P := fun e : Engine ι =>
    ∃ bs, Machine.run (RpcServer.step dep.fromStr)
        (RpcServer.new (dep.net.ids n) (dep.capacity n)) bs = some (e.server n)
      ∧ Machine.Guarded (RpcServer.step dep.fromStr) guard
        (RpcServer.new (dep.net.ids n) (dep.capacity n)) bs) ?_ ?_ hguarded hrun
  · rintro t a t' ⟨bs, hbs, hguarded⟩ hguard hstep
    by_cases ha : a = .gossip (.restart n)
    · subst ha
      simp only [step, Option.map_eq_some_iff] at hstep
      obtain ⟨cluster, hcluster, rfl⟩ := hstep
      obtain rfl := Option.some.inj hcluster
      exact hstart (Function.update_self _ _ _) (Function.update_self _ _ _)
    · obtain hsame | ⟨b, hb, hserver⟩ := step_server ha hstep
      · exact ⟨bs, hsame ▸ hbs, hguarded⟩
      · refine ⟨bs ++ [b], Machine.run_concat_eq_some.mpr ⟨_, hbs, hserver⟩, hguarded.append ?_⟩
        intro u hu
        obtain rfl := Option.some.inj (hbs.symm.trans hu)
        refine ⟨?_, fun _ _ => trivial⟩
        obtain hb | ⟨sa, rfl⟩ | ⟨peers, rfl⟩ := hb
        · exact hguard b hb
        · exact hstores _ _
        · exact hpeers _ _
  · exact hstart rfl rfl

/-- At some point of a run, a step of a connection of node `n` makes this call of `set`. -/
def Requests (dep : Deployment ι) (as : List (EngineAction ι)) (n : ι) (key value : String)
    (now : Nat) : Prop :=
  ∃ pre i a post before, as = pre ++ .rpc n (.connection i a) :: post
    ∧ Machine.run (step dep) (init dep) pre = some before
    ∧ (before.server n).callOf dep.fromStr i a = some (key, value) ∧ RpcServer.clock a = now

theorem requests_of_mem {as : List (EngineAction ι)}
    (hrun : Machine.run (step dep) (init dep) as = some e) {n : ι} {key value : String} {now : Nat}
    (hmem : .callSet n key value now ∈ gossipTrace dep as) : Requests dep as n key value now := by
  obtain ⟨pre, a, post, u, rfl, hpre, hsteps⟩ := Machine.mem_trace hmem
  obtain ⟨u', hu', hpost⟩ := Machine.run_append_eq_some.mp hrun
  obtain rfl := Option.some.inj (hpre.symm.trans hu')
  obtain ⟨v, hstep, _⟩ := Machine.run_cons_eq_some.mp hpost
  cases a with
  | gossip a =>
      obtain rfl := List.mem_singleton.mp hsteps
      simp [step] at hstep
  | rpc m a =>
      cases a with
      | connection i ca =>
          simp only [gossipSteps] at hsteps
          split at hsteps
          · rename_i k v hcall
            obtain ⟨rfl, rfl, rfl, rfl⟩ :
                n = m ∧ key = k ∧ value = v ∧ now = RpcServer.clock ca := by
              simpa using hsteps
            exact ⟨pre, i, ca, post, u, rfl, hpre, hcall, rfl⟩
          · simp at hsteps
      | _ => simp [gossipSteps] at hsteps

theorem mem_of_requests {as : List (EngineAction ι)} {n : ι} {key value : String} {now : Nat}
    (h : Requests dep as n key value now) : .callSet n key value now ∈ gossipTrace dep as := by
  obtain ⟨pre, i, a, post, before, rfl, hpre, hcall, rfl⟩ := h
  apply Machine.mem_trace_of_run hpre
  simp [gossipSteps, hcall]

/-- **The two halves of the engine.** Every run of the engine is a run of the cluster whose calls of
`set` are exactly those of the connections, and a run of the server of each node since its start,
whatever the rest of the engine does. -/
theorem run_projections {as : List (EngineAction ι)}
    (hrun : Machine.run (step dep) (init dep) as = some e) :
    Machine.run (Cluster.step dep.net) (Cluster.init dep.net) (gossipTrace dep as)
        = some e.cluster
      ∧ (∀ n key value now, .callSet n key value now ∈ gossipTrace dep as ↔
          Requests dep as n key value now)
      ∧ ∀ n, ∃ bs, Machine.run (RpcServer.step dep.fromStr)
          (RpcServer.new (dep.net.ids n) (dep.capacity n)) bs = some (e.server n) := by
  refine ⟨run_cluster hrun, fun n key value now => ⟨requests_of_mem hrun, mem_of_requests⟩, ?_⟩
  intro n
  obtain ⟨bs, hbs, _⟩ := run_server n (fun _ _ => True) (fun _ _ => trivial)
    (fun _ _ => trivial) (Machine.guarded_of_forall (by simp) _) hrun
  exact ⟨bs, hbs⟩

def setLine : String :=
  "\x7b\"jsonrpc\":\"2.0\",\"method\":\"state.set\",\"id\":3,"
    ++ "\"params\":\x7b\"key\":\"k\",\"value\":\"x\"\x7d\x7d"

def twoServers : Deployment Bool where
  net := twoNodes
  capacity := fun _ => 4
  fromStr := fun line =>
    if line = setLine then
      .ok { jsonrpc := "2.0", method := "state.set", id := some (.ofNat 3)
            params := .object [("key", .string "k"), ("value", .string "x")] }
    else RpcServer.followerRequest line

/-- A client connects to the first node and writes. -/
def clientWrites : List (EngineAction Bool) :=
  [.rpc false (.accept (setLine ++ "\n").toList),
    .rpc false (.connection 0 (.arrive 79)), .rpc false (.connection 0 (.fill 100 5 fun _ => 0)),
    .gossip (.advance false 0), .rpc false (.connection 0 (.write true))]

theorem run_projections_clientWrites :
    ∃ e, Machine.run (step twoServers) (init twoServers) clientWrites = some e
      ∧ e.cluster.get false "k" = some { value := "x", timestamp := 5, nodeId := "node-a" }
      ∧ Machine.run (Cluster.step twoNodes) (Cluster.init twoNodes)
        [.callSet false "k" "x" 5, .advance false 0, .advance false 0] = some e.cluster
      ∧ Requests twoServers clientWrites false "k" "x" 5 := by
  have hany : (Machine.run (step twoServers) (init twoServers) clientWrites).any (fun e =>
      decide (e.cluster.get false "k"
        = some { value := "x", timestamp := 5, nodeId := "node-a" })) = true := by
    decide +kernel
  have htrace : gossipTrace twoServers clientWrites
      = [.callSet false "k" "x" 5, .advance false 0, .advance false 0] := by
    decide +kernel
  obtain ⟨e, hrun, hget⟩ := Machine.exists_of_any_run hany
  obtain ⟨hcluster, hrequests, _⟩ := run_projections hrun
  rw [htrace] at hcluster hrequests
  exact ⟨e, hrun, of_decide_eq_true hget, hcluster,
    (hrequests false "k" "x" 5).mp List.mem_cons_self⟩

end Engine

end StateSync
