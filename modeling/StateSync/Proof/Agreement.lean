import StateSync.Proof.EndToEnd
import StateSync.Proof.Quiescence

/-!
# The last write, at every client

What the engine is for. A client writes through any node; when gossip has come to rest, the copy
that a client of any other node makes of what it is told holds the last of these writes. A write is
never lost, since its task is still there: it has offered its entry to the store of its node, and
everything that rest requires carries the entry on from there.
-/

namespace StateSync

open Register

theorem Task.offered_of_isReturned {task : Task} (h : task.isReturned = true) :
    task.offered = task.origin.offering := by
  cases task with
  | set key incoming pc =>
      cases pc with
      | returned winner => rfl
      | _ => simp [isReturned] at h
  | merge delta pc =>
      cases pc with
      | returned updated => rfl
      | _ => simp [isReturned] at h

theorem LiveStore.Consistent.dominates_of_idle {live : LiveStore} (h : live.Consistent)
    (hidle : live.Idle) {task : Task} (htask : task ∈ live.tasks) {k : String} {v : LwwValue}
    (hoffering : (k, v) ∈ task.origin.offering) : live.state.Dominates k v := by
  rw [← Task.offered_of_isReturned (hidle task htask)] at hoffering
  exact h.offered task htask k v hoffering

namespace Cluster

variable {ι : Type} [DecidableEq ι] {net : Network ι} {c c' : Cluster ι}

theorem step_origin {a : Action ι} (hstep : c.step net a = some c') {n : ι}
    (ha : a ≠ .restart n) {task : Task} (htask : task ∈ (c.nodes n).live.tasks) :
    ∃ task' ∈ (c'.nodes n).live.tasks, task'.origin = task.origin := by
  obtain hsame | ⟨sa, hlive, _⟩ := ((step_spec hstep).node n).live ha
  · exact ⟨task, hsame ▸ htask, rfl⟩
  · obtain ⟨i, hi⟩ := List.mem_iff_getElem?.mp htask
    obtain ⟨task', htask', horigin⟩ := LiveStore.step_origin hlive hi
    exact ⟨task', List.mem_of_getElem? htask', horigin⟩

theorem step_callSet {n : ι} {key value : String} {now : Nat}
    (hstep : c.step net (.callSet n key value now) = some c') :
    .set key (LwwValue.new value (c.nodes n).live.nodeId now) .drawn
      ∈ (c'.nodes n).live.tasks := by
  simp only [step, storeStep, LiveStore.step, Option.map_some, Option.some.injEq] at hstep
  rw [← hstep]
  simp [setNode]

theorem exists_of_mem_readings {as : List (Action ι)} {n : ι} {now : Nat}
    (h : now ∈ readings n as) : ∃ key value, .callSet n key value now ∈ as := by
  obtain ⟨a, ha, hnow⟩ := List.mem_filterMap.mp h
  cases a with
  | callSet m key value t =>
      obtain ⟨rfl, rfl⟩ : m = n ∧ t = now := by simpa using hnow
      exact ⟨key, value, ha⟩
  | _ => simp at hnow

/-- Every call of `set` is still a task of its node. -/
theorem run_mem_tasks {as : List (Action ι)} (hstable : ∀ n, Action.restart n ∉ as)
    (hrun : Machine.run (step net) (init net) as = some c) {n : ι} {key value : String} {now : Nat}
    (hcall : .callSet n key value now ∈ as) :
    ∃ task ∈ (c.nodes n).live.tasks,
      task.origin = .set key (LwwValue.new value (net.ids n) now) .drawn := by
  have hall : (∀ n, Action.restart n ∉ as) → ∀ n key value now, .callSet n key value now ∈ as →
      ∃ task ∈ (c.nodes n).live.tasks,
        task.origin = .set key (LwwValue.new value (net.ids n) now) .drawn := by
    refine Machine.run_induction (P := fun as c => (∀ n, Action.restart n ∉ as) →
      ∀ n key value now, .callSet n key value now ∈ as → ∃ task ∈ (c.nodes n).live.tasks,
        task.origin = .set key (LwwValue.new value (net.ids n) now) .drawn) ?_ ?_ hrun
    · intro _ n key value now hcall
      exact absurd hcall List.not_mem_nil
    · intro as t a u hrun ih hstep hstable n key value now hcall
      obtain hcall | hcall := List.mem_append.mp hcall
      · have hold : ∀ n, Action.restart n ∉ as :=
          fun m hm => hstable m (List.mem_append_left _ hm)
        obtain ⟨task, htask, horigin⟩ := ih hold n key value now hcall
        have hne : a ≠ .restart n := by
          rintro rfl
          exact hstable n (List.mem_append_right _ List.mem_cons_self)
        obtain ⟨task', htask', horigin'⟩ := step_origin hstep hne htask
        exact ⟨task', htask', horigin'.trans horigin⟩
      · obtain rfl := List.mem_singleton.mp hcall
        refine ⟨_, step_callSet hstep, ?_⟩
        rw [(run_entries hrun).nodeId n]
        rfl
  exact hall hstable n key value now hcall

theorem run_allSafe {as : List (Action ι)} (hstable : ∀ n, Action.restart n ∉ as)
    (htimely : Machine.Guarded (step net)
      (fun c a => ∀ m n, StoresTimely net m n (fun _ => True) c a) (init net) as)
    (hrun : Machine.run (step net) (init net) as = some c) : AllSafe net c := by
  refine Machine.run_invariant_of_guarded ?_ (allSafe_init net)
    ((guarded_stable hstable _).and htimely) hrun
  rintro s a t h ⟨ha, htimely⟩ hstep
  exact h.step hstep ha htimely

/-- At rest every node dominates what a `set` was called with on any of them. -/
theorem AllSafe.dominates_of_called (h : AllSafe net c) (hpositive : Positive c)
    (hquiet : c.Quiescent) (hreach : ∀ m n, Relation.ReflTransGen (Linked net c) m n)
    {as : List (Action ι)} (hstable : ∀ n, Action.restart n ∉ as)
    (hrun : Machine.run (Cluster.step net) (init net) as = some c) {m : ι} {key value : String}
    {now : Nat} (hcall : .callSet m key value now ∈ as) (n : ι) :
    c.Dominates n key (LwwValue.new value (net.ids m) now) := by
  obtain ⟨task, htask, horigin⟩ := run_mem_tasks hstable hrun hcall
  have hown : c.Dominates m key (LwwValue.new value (net.ids m) now) := by
    apply (h.wellFormed.consistent m).dominates_of_idle (hquiet.idle m) htask
    rw [horigin]
    exact List.mem_cons_self
  calc
    ((LwwValue.new value (net.ids m) now).stamp : WithBot (ℕ ×ₗ String))
      ≤ (c.nodes m).live.state.stampAt key := hown
    _ ≤ (c.nodes n).live.state.stampAt key :=
      h.stampAt_le_of_reachable hpositive hquiet (hreach m n) key

end Cluster

namespace Engine

variable {ι : Type} [DecidableEq ι] {dep : Deployment ι} {e : Engine ι}
  {as : List (EngineAction ι)}

theorem restart_notMem_gossipTrace (dep : Deployment ι) (hstable : ∀ n, .gossip (.restart n) ∉ as)
    (n : ι) : .restart n ∉ gossipTrace dep as := by
  intro hmem
  obtain ⟨pre, a, post, u, rfl, _, ha⟩ := Machine.mem_trace hmem
  cases a with
  | gossip a =>
      obtain rfl := List.mem_singleton.mp ha
      exact hstable n (by simp)
  | rpc m a =>
      cases a with
      | connection i ca =>
          simp only [gossipSteps] at ha
          split at ha
          · simp at ha
          · exact absurd ha List.not_mem_nil
      | _ => exact absurd ha List.not_mem_nil

/-- Every delta that the client of connection `i` of node `n` asks for starts where its copy lacks
nothing older. -/
def SyncsCovered (dep : Deployment ι) (n : ι) (i : Nat) (e : Engine ι) : EngineAction ι → Prop
  | .gossip _ => True
  | .rpc m b => m = n → RpcServer.SyncsCovered dep.fromStr i (e.server n) b

instance (n : ι) (i : Nat) (e : Engine ι) (a : EngineAction ι) :
    Decidable (SyncsCovered dep n i e a) :=
  match a with
  | .gossip _ => isTrue trivial
  | .rpc m b => inferInstanceAs (Decidable
      (m = n → RpcServer.SyncsCovered dep.fromStr i (e.server n) b))

theorem run_lookup_eq {n : ι} {i : Nat}
    (hcovered : Machine.Guarded (step dep) (SyncsCovered dep n i) (init dep) as)
    (hrun : Machine.run (step dep) (init dep) as = some e) (hidle : (e.cluster.nodes n).live.Idle)
    {served : Served} (hserved : (e.frontends n).connections[i]? = some served)
    (hrunning : served.connection.Running)
    (hreceived : served.connection.subscription
      = some { next := (e.cluster.nodes n).live.events.length })
    (hstale : served.connection.follower.stale = false) {k : String}
    (hwants : served.connection.Wants k) :
    served.connection.follower.mirror.lookup k = e.cluster.get n k := by
  have hguarded : Machine.Guarded (step dep) (fun e a => ∀ b, a = .rpc n b →
      RpcServer.SyncsCovered dep.fromStr i (e.server n) b) (init dep) as := by
    refine hcovered.mono ?_
    rintro e a h b rfl
    exact h rfl
  obtain ⟨bs, hbs, hguarded⟩ := run_server n (RpcServer.SyncsCovered dep.fromStr i)
    (fun _ _ => trivial) (fun _ _ => trivial) hguarded hrun
  have htrailed : (e.server n).Trailed := Machine.run_invariant (P := RpcServer.Trailed)
    (fun _ _ _ h hstep => h.step hstep) (RpcServer.trailed_new _ _) hbs
  exact (htrailed.trails i served hserved).lookup_eq
    (RpcServer.run_followedAt hbs hguarded served hserved) hidle hrunning hreceived hstale hwants

/-- The entry is the last write of the key: a client has asked for it, and none for a newer one. -/
structure LastWrite (dep : Deployment ι) (as : List (EngineAction ι)) (k : String) (v : LwwValue) :
    Prop where
  requested : ∃ m, dep.net.ids m = v.nodeId ∧ Requests dep as m k v.value v.timestamp
  newest : ∀ m value now, Requests dep as m k value now →
    (LwwValue.new value (dep.net.ids m) now).stamp ≤ v.stamp

/-- **The last write reaches every client.** In a run of the engine without restarts, on nodes with
different ids and positive clock readings, whose entries are stored in time, let gossip have come to
rest and every node reach every other. Take a client, on any node, whose deltas start where its copy
lacks nothing older, and that has received everything its node sent and is not stale. It then has
what every node has; and for a key that it wants this is the last of the writes that any client has
asked of any node, if there are any. -/
theorem last_write_reaches_clients (hids : Function.Injective dep.net.ids)
    (hstable : ∀ n, .gossip (.restart n) ∉ as)
    (hclock : ∀ n key value now, Requests dep as n key value now → 0 < now)
    (htimely : Machine.Guarded (Cluster.step dep.net)
      (fun c a => ∀ m n, Cluster.StoresTimely dep.net m n (fun _ => True) c a)
      (Cluster.init dep.net) (gossipTrace dep as))
    (hrun : Machine.run (step dep) (init dep) as = some e) (hquiet : e.cluster.Quiescent)
    (hreach : ∀ m n, Relation.ReflTransGen (Cluster.Linked dep.net e.cluster) m n) {n : ι} {i : Nat}
    (hcovered : Machine.Guarded (step dep) (SyncsCovered dep n i) (init dep) as)
    {served : Served} (hserved : (e.frontends n).connections[i]? = some served)
    (hrunning : served.connection.Running)
    (hreceived : served.connection.subscription
      = some { next := (e.cluster.nodes n).live.events.length })
    (hstale : served.connection.follower.stale = false) {k : String}
    (hwants : served.connection.Wants k) :
    (∀ m, e.cluster.get m k = served.connection.follower.mirror.lookup k)
      ∧ ((served.connection.follower.mirror.lookup k = none
            ∧ ∀ m value now, ¬ Requests dep as m k value now)
        ∨ ∃ v, served.connection.follower.mirror.lookup k = some v ∧ LastWrite dep as k v) := by
  have hcluster := run_cluster hrun
  have hstable := restart_notMem_gossipTrace dep hstable
  have hsafe := Cluster.run_allSafe hstable htimely hcluster
  have hpositive : Cluster.Positive e.cluster := by
    apply Cluster.run_positive _ hcluster
    intro m now hnow
    obtain ⟨key, value, hcall⟩ := Cluster.exists_of_mem_readings hnow
    exact hclock m key value now (requests_of_mem hrun hcall)
  have hcopy := run_lookup_eq hcovered hrun (hquiet.idle n) hserved hrunning hreceived hstale hwants
  refine ⟨?_, ?_⟩
  · intro m
    rw [hcopy]
    apply (Cluster.run_replicas_wellFormed hids hstable hcluster).get_eq_of_stampAt_eq
    apply le_antisymm
    · exact hsafe.stampAt_le_of_reachable hpositive hquiet (hreach m n) k
    · exact hsafe.stampAt_le_of_reachable hpositive hquiet (hreach n m) k
  · have hdominates {m : ι} {value : String} {now : Nat} (h : Requests dep as m k value now) :
        ((LwwValue.new value (dep.net.ids m) now).stamp : WithBot (ℕ ×ₗ String))
          ≤ stampOf LwwValue.stamp (e.cluster.get n k) :=
      hsafe.dominates_of_called hpositive hquiet hreach hstable hcluster (mem_of_requests h) n
    rw [hcopy]
    cases hget : e.cluster.get n k with
    | none =>
        refine Or.inl ⟨rfl, ?_⟩
        intro m value now h
        have hle := hdominates h
        rw [hget] at hle
        simp at hle
    | some v =>
        refine Or.inr ⟨v, rfl, ?_, ?_⟩
        · have hentries := Cluster.run_entries hcluster
          obtain ⟨m, hid, hcall⟩ := (hentries.stores n).shows k v (Or.inl hget)
          exact ⟨m, hid, requests_of_mem hrun hcall⟩
        · intro m value now h
          have hle := hdominates h
          rw [hget] at hle
          exact WithBot.coe_le_coe.mp hle

/-- The clients of `clientToClient`, and the two rounds that gossip takes to come to rest. -/
def settledClients : List (EngineAction Bool) :=
  let k : String × LwwValue := ("k", { value := "x", timestamp := 5, nodeId := "node-a" })
  clientToClient
    ++ ((Action.roundAlone true [("node-a", ⟨"10.0.0.1:7071", 0, 1⟩)] [k] 1 false 1 2)
      ++ Action.roundAlone false
        [("node-b", ⟨"10.0.0.2:7071", 0, 1⟩), ("10.0.0.2:7071", ⟨"10.0.0.2:7071", 5, 1⟩)] [k]
        2 true 1 2).map .gossip

theorem last_write_reaches_clients_settled :
    ∃ e, Machine.run (step twoServers) (init twoServers) settledClients = some e
      ∧ ∃ served ∈ (e.frontends true).connections,
        (∀ m, e.cluster.get m "k" = served.connection.follower.mirror.lookup "k")
          ∧ ∃ v, served.connection.follower.mirror.lookup "k" = some v
            ∧ LastWrite twoServers settledClients "k" v := by
  have hany : (Machine.run (step twoServers) (init twoServers) settledClients).any (fun e =>
      decide (e.cluster.Quiescent ∧ Cluster.Linked twoNodes e.cluster false true
        ∧ Cluster.Linked twoNodes e.cluster true false)
      && (e.frontends true).connections[0]?.any fun served =>
        decide (served.connection.subscription
            = some { next := (e.cluster.nodes true).live.events.length }
          ∧ served.connection.follower.stale = false ∧ served.connection.Wants "k"
          ∧ served.connection.Running
          ∧ (served.connection.follower.mirror.lookup "k").isSome)) = true := by
    decide +kernel
  have hstable (n : Bool) : .gossip (.restart n) ∉ settledClients := by
    simp [settledClients, clientToClient, clientWrites, Action.roundAlone]
  have hclock : ∀ n, ∀ now ∈ Cluster.readings n (gossipTrace twoServers settledClients),
      0 < now := by
    decide +kernel
  obtain ⟨e, hrun, hany⟩ := Machine.exists_of_any_run hany
  rw [Bool.and_eq_true, decide_eq_true_eq] at hany
  obtain ⟨⟨hquiet, hlinked, hlinked'⟩, hany⟩ := hany
  obtain ⟨served, hserved, hfacts⟩ := (Option.any_eq_true _ _).mp hany
  obtain ⟨hreceived, hstale, hwants, hrunning, hsome⟩ := of_decide_eq_true hfacts
  have hreach (m n : Bool) : Relation.ReflTransGen (Cluster.Linked twoNodes e.cluster) m n := by
    cases m <;> cases n
    · exact Relation.ReflTransGen.refl
    · exact Relation.ReflTransGen.single hlinked
    · exact Relation.ReflTransGen.single hlinked'
    · exact Relation.ReflTransGen.refl
  obtain ⟨hstores, hlast⟩ := last_write_reaches_clients twoNodes_ids_injective hstable
    (fun n key value now h => hclock n now (Cluster.mem_readings (mem_of_requests h)))
    (by decide +kernel) hrun hquiet hreach (by decide +kernel) hserved hrunning hreceived hstale
    hwants
  refine ⟨e, hrun, served, List.mem_of_getElem? hserved, hstores, ?_⟩
  obtain ⟨hnone, _⟩ | hlast := hlast
  · simp [hnone] at hsome
  · exact hlast

end Engine

end StateSync
