import StateSync.Proof.Followers

/-!
# A follower catches up

Whatever was overwritten in the channel before it was received, the client is told that something is
missing, and the delta it then asks for brings it. What carries the argument is the debt of the
store: an entry the copy lacks is still in the channel, or owed by a task, or the client knows that
its copy is stale.
-/

namespace StateSync

open Register Broadcast

theorem eventValues_cons (e : StateEvent) (events : List StateEvent) (k : String) :
    eventValues (e :: events) k = valuesFor [(e.key, e.value)] k ++ eventValues events k := by
  by_cases hk : e.key = k
  · simp [eventValues, valuesFor, hk]
  · simp [eventValues, valuesFor, hk]

namespace Connection

variable {fromStr : String → Except String RpcRequest} {c c' : Connection}

/-- A delta that starts at `since` brings everything the follower lacks. -/
def Covered (live : LiveStore) (c : Connection) (since : Nat) : Prop :=
  ∀ entry ∈ live.snapshot, c.Wants entry.1 → entry.2.timestamp ≤ since →
    c.follower.mirror.Dominates entry.1 entry.2

/-- However much of what was written has arrived, the copy made of it is behind the store. -/
structure Trails (live : LiveStore) (c : Connection) : Prop where
  behind : ∀ received, received <+: c.lines → ∀ k,
    Behind LwwValue.stamp ((Follower.after received).mirror.lookup k) (live.get k)
  subscribed : ∀ receiver, c.subscription = some receiver → receiver.next ≤ live.events.length

/-- Of a follower that is not stale: what its copy lacks is still to be received, or to be sent. -/
def Complete (live : LiveStore) (c : Connection) : Prop :=
  c.Running → c.follower.stale = false → ∀ receiver, c.subscription = some receiver →
    ∀ k, c.Wants k → ∀ v, live.get k = some v →
      offers LwwValue.stamp (c.follower.mirror.lookup k)
          (eventValues (live.events.drop receiver.next) k) = some v
        ∨ live.Owed k v

/-! ### A step of the store -/

section

variable {live live' : LiveStore}

theorem Trails.store (h : Trails live c) {a : StoreAction} (hstep : live.step a = some live') :
    Trails live' c where
  behind := fun received hreceived k =>
    (h.behind received hreceived k).trans (LiveStore.step_behind hstep k)
  subscribed := by
    intro receiver hreceiver
    have hrun : Machine.run LiveStore.step live [a] = some live' :=
      Machine.run_cons_eq_some.mpr ⟨live', hstep, rfl⟩
    exact (h.subscribed receiver hreceiver).trans (LiveStore.run_events_length hrun)

theorem Complete.store (h : Complete live c) (htrails : Trails live c)
    (hconsistent : live.Consistent) {a : StoreAction} (hstep : live.step a = some live') :
    Complete live' c := by
  intro hrunning hstale receiver hreceiver k hwants v hv
  -- a client that has the keys it did not ask for anyway
  have hmirrors : LiveStore.Mirrors receiver.next
      (fun key => if c.Wants key then c.follower.mirror.lookup key else live.get key) live := by
    have hcurrent (key : String) {o : Option LwwValue}
        (ho : Behind LwwValue.stamp o (live.get key)) :
        Behind LwwValue.stamp (offers LwwValue.stamp o
          (eventValues (live.events.drop receiver.next) key)) (live.get key) := by
      apply ho.offers
      intro w hw
      exact hconsistent.events _ (List.mem_of_mem_drop (mem_eventValues.mp hw))
    refine ⟨hconsistent, htrails.subscribed receiver hreceiver, ?_, ?_⟩
    · intro key
      apply hcurrent
      split
      · exact htrails.behind c.lines List.prefix_rfl key
      · exact Behind.refl _
    · intro key w hw
      by_cases hkey : c.Wants key
      · rw [if_pos hkey]
        exact h hrunning hstale receiver hreceiver key hkey w hw
      · rw [if_neg hkey]
        exact ((LiveStore.Mirrors.of_consistent hconsistent
          (htrails.subscribed receiver hreceiver)).owed key w hw)
  have howed := (hmirrors.step hstep).owed k v hv
  rwa [if_pos hwants] at howed

/-! ### A step of the connection -/

theorem Follower.behind_fold {follower : Follower} {entries : StateDelta} {k : String}
    (hmirror : Behind LwwValue.stamp (follower.mirror.lookup k) (live.get k))
    (hentries : ∀ v, (k, v) ∈ entries → Behind LwwValue.stamp (some v) (live.get k)) :
    Behind LwwValue.stamp ((follower.fold entries).lookup k) (live.get k) := by
  rw [Follower.lookup_fold]
  exact hmirror.offers fun v hv => hentries v (mem_valuesFor.mp hv)

/-- What a delta does to a copy that is behind the store and lacks no entry older than the delta. -/
theorem offers_deltaSince {o : Option LwwValue} {k : String} {v : LwwValue} {since : Nat}
    (ho : Behind LwwValue.stamp o (live.get k)) (hv : live.get k = some v)
    (hold : v.timestamp ≤ since → (v.stamp : WithBot (ℕ ×ₗ String)) ≤ stampOf LwwValue.stamp o) :
    offers LwwValue.stamp o (valuesFor (live.deltaSince since) k) = some v := by
  have hvalues : ∀ w ∈ valuesFor (live.deltaSince since) k, w = v := by
    intro w hw
    have hw := (mem_deltaSince.mp (mem_valuesFor.mp hw)).1
    exact Option.some.inj (hw.symm.trans hv)
  rw [hv] at ho
  have hbehind : Behind LwwValue.stamp
      (offers LwwValue.stamp o (valuesFor (live.deltaSince since) k)) (some v) := by
    apply ho.offers
    intro w hw
    rw [hvalues w hw]
    exact Behind.refl _
  apply hbehind.eq_of_stamp_le
  obtain hle | hlt := le_or_gt v.timestamp since
  · exact (hold hle).trans (behind_offers o _).stamp_le
  · exact stamp_le_offers LwwValue.stamp o (mem_valuesFor.mpr (mem_deltaSince.mpr ⟨hv, hlt⟩))

theorem Trails.follower (h : Trails live c) (k : String) :
    Behind LwwValue.stamp (c.follower.mirror.lookup k) (live.get k) :=
  h.behind c.lines List.prefix_rfl k

theorem follower_concat {line : Outgoing} (hlines : c'.lines = c.lines ++ [line]) :
    c'.follower = c.follower.receive line := by
  rw [Connection.follower, hlines, Follower.after_concat]
  rfl

theorem Trails.concat (h : Trails live c) {line : Outgoing} (hlines : c'.lines = c.lines ++ [line])
    (hline : ∀ k, Behind LwwValue.stamp ((c.follower.receive line).mirror.lookup k) (live.get k))
    (hsubscribed : ∀ receiver, c'.subscription = some receiver →
      receiver.next ≤ live.events.length) : Trails live c' where
  behind := by
    intro received hreceived k
    rw [hlines, List.prefix_concat_iff] at hreceived
    obtain rfl | hreceived := hreceived
    · rw [Follower.after_concat]
      exact hline k
    · exact h.behind received hreceived k
  subscribed := hsubscribed

theorem Trails.speaks (h : Trails live c) (hconsistent : live.Consistent)
    (hstore : c.handler.store = live.toStateStore) (hevents : c.handler.events.sent = live.events)
    (hspeaks : Speaks fromStr c c') : Trails live c' := by
  have hsame (hsubscription : c'.subscription = c.subscription) :
      ∀ receiver, c'.subscription = some receiver → receiver.next ≤ live.events.length :=
    fun receiver hreceiver => h.subscribed receiver (hsubscription.symm.trans hreceiver)
  cases hspeaks with
  | silent hlines hsubscription hmatching =>
      exact ⟨fun received hreceived => h.behind received (hlines ▸ hreceived), hsame hsubscription⟩
  | broken hlines hsubscription hended =>
      exact ⟨fun received hreceived => h.behind received (hreceived.trans hlines),
        hsame hsubscription⟩
  | @forwarded receiver ev hreceiver hev hlines hsubscription hmatching =>
      rw [hevents] at hev
      refine h.concat hlines ?_ ?_
      · intro k
        rw [Follower.receive_stateUpdate]
        refine Follower.behind_fold (h.follower k) ?_
        intro v hv
        obtain ⟨rfl, rfl⟩ := Prod.mk.inj (List.mem_singleton.mp hv)
        exact hconsistent.events ev (List.mem_of_getElem? hev)
      · intro r hr
        obtain rfl := Option.some.inj (hsubscription.symm.trans hr)
        exact Nat.succ_le_of_lt (List.getElem?_eq_some_iff.mp hev).1
  | @filtered receiver ev hreceiver hev hunwanted hlines hsubscription hmatching =>
      rw [hevents] at hev
      refine ⟨fun received hreceived => h.behind received (hlines ▸ hreceived), ?_⟩
      intro r hr
      obtain rfl := Option.some.inj (hsubscription.symm.trans hr)
      exact Nat.succ_le_of_lt (List.getElem?_eq_some_iff.mp hev).1
  | lagged hlines hsubscription =>
      refine h.concat hlines h.follower ?_
      intro r hr
      obtain rfl := Option.some.inj (hsubscription.symm.trans hr)
      rw [← hevents]
      exact Nat.sub_le _ _
  | subscribed hlines hsubscription =>
      refine h.concat hlines h.follower ?_
      intro r hr
      obtain rfl := Option.some.inj (hsubscription.symm.trans hr)
      rw [← hevents]
      exact le_rfl
  | synced hreq hmethod hdispatched hlines hsubscription hmatching =>
      refine h.concat hlines ?_ (hsame hsubscription)
      intro k
      rw [Follower.receive_syncDelta, hstore]
      refine Follower.behind_fold (h.follower k) ?_
      intro v hv
      exact Or.inl (mem_deltaSince.mp hv).1.symm
  | answered hreply hentries hlines hsubscription hmatching =>
      refine h.concat hlines ?_ (hsame hsubscription)
      intro k
      rw [hreply]
      exact h.follower k

theorem Complete.speaks (h : Complete live c) (htrails : Trails live c)
    (hconsistent : live.Consistent) (hstore : c.handler.store = live.toStateStore)
    (hevents : c.handler.events.sent = live.events) (hrunning : c'.Running → c.Running)
    (hcovered : ∀ line req, c'.dispatched = c.dispatched ++ [line] → fromStr line = .ok req →
      req.method = "sync.delta" →
        Covered live c (((req.params.get "since").bind Value.asU64).getD 0))
    (hspeaks : Speaks fromStr c c') : Complete live c' := by
  intro hrunning' hstale receiver hreceiver k hwants v hv
  have hrunning := hrunning hrunning'
  have hwanted (hmatching : c'.subPrefix = c.subPrefix) : c.Wants k := by
    unfold Wants at hwants ⊢
    rwa [← hmatching]
  cases hspeaks with
  | silent hlines hsubscription hmatching =>
      have hfollower : c'.follower = c.follower := by
        unfold Connection.follower
        rw [hlines]
      rw [hfollower] at hstale ⊢
      exact h hrunning hstale receiver (hsubscription ▸ hreceiver) k (hwanted hmatching) v hv
  | broken hlines hsubscription hended => exact absurd hrunning' hended
  | @forwarded receiver₀ ev hreceiver₀ hev hlines hsubscription hmatching =>
      rw [hevents] at hev
      obtain ⟨hlt, rfl⟩ := List.getElem?_eq_some_iff.mp hev
      obtain rfl := Option.some.inj (hsubscription.symm.trans hreceiver)
      rw [follower_concat hlines, Follower.receive_stateUpdate] at hstale ⊢
      have hcomplete := h hrunning hstale receiver₀ hreceiver₀ k (hwanted hmatching) v hv
      rw [List.drop_eq_getElem_cons hlt, eventValues_cons, offers_append] at hcomplete
      rwa [Follower.lookup_fold]
  | @filtered receiver₀ ev hreceiver₀ hev hunwanted hlines hsubscription hmatching =>
      rw [hevents] at hev
      obtain ⟨hlt, rfl⟩ := List.getElem?_eq_some_iff.mp hev
      obtain rfl := Option.some.inj (hsubscription.symm.trans hreceiver)
      have hfollower : c'.follower = c.follower := by
        unfold Connection.follower
        rw [hlines]
      rw [hfollower] at hstale ⊢
      have hcomplete := h hrunning hstale receiver₀ hreceiver₀ k (hwanted hmatching) v hv
      have hne : live.events[receiver₀.next].key ≠ k := by
        rintro rfl
        exact hunwanted (hwanted hmatching)
      have hnone : valuesFor [(live.events[receiver₀.next].key,
          live.events[receiver₀.next].value)] k = [] := by
        simp [valuesFor, hne]
      rwa [List.drop_eq_getElem_cons hlt, eventValues_cons, hnone, List.nil_append] at hcomplete
  | lagged hlines hsubscription =>
      rw [follower_concat hlines, Follower.receive_lag] at hstale
      simp at hstale
  | subscribed hlines hsubscription =>
      rw [follower_concat hlines, Follower.receive_subscribed] at hstale
      simp at hstale
  | synced hreq hmethod hdispatched hlines hsubscription hmatching =>
      left
      rw [follower_concat hlines, Follower.receive_syncDelta, hstore, Follower.lookup_fold,
        offers_deltaSince (htrails.follower k) hv]
      · apply offers_of_forall_stamp_le
        intro w hw
        rw [← hv]
        exact (hconsistent.events _ (List.mem_of_mem_drop (mem_eventValues.mp hw))).stamp_le
      · exact hcovered _ _ hdispatched hreq hmethod (k, v) (mem_iter.mpr hv) (hwanted hmatching)
  | answered hreply hentries hlines hsubscription hmatching =>
      rw [follower_concat hlines, hreply] at hstale ⊢
      exact h hrunning hstale receiver (hsubscription ▸ hreceiver) k (hwanted hmatching) v hv

end

/-- A client that has received everything, and was told of nothing it missed since its last delta,
has what the store has. -/
theorem Trails.lookup_eq {live : LiveStore} (h : Trails live c) (hcomplete : Complete live c)
    (hidle : live.Idle) (hrunning : c.Running)
    (hreceived : c.subscription = some { next := live.events.length })
    (hstale : c.follower.stale = false) {k : String} (hwants : c.Wants k) :
    c.follower.mirror.lookup k = live.get k := by
  cases hget : live.get k with
  | none =>
      have hbehind := h.follower k
      rw [hget] at hbehind
      exact hbehind.eq_none
  | some v =>
      have hcopy := (hcomplete hrunning hstale _ hreceived k hwants v hget).resolve_right
        (LiveStore.not_owed_of_idle hidle k v)
      rwa [List.drop_length] at hcopy

/-! ### A run of the store -/

theorem Trails.run {live live' : LiveStore} (h : Trails live c) {bs : List StoreAction}
    (hrun : Machine.run LiveStore.step live bs = some live') : Trails live' c :=
  Machine.run_invariant (P := fun live => Trails live c) (fun _ _ _ h hstep => h.store hstep) h hrun

theorem Complete.run {live live' : LiveStore} (h : Complete live c) (htrails : Trails live c)
    (hconsistent : live.Consistent) {bs : List StoreAction}
    (hrun : Machine.run LiveStore.step live bs = some live') : Complete live' c := by
  have hall : live'.Consistent ∧ Trails live' c ∧ Complete live' c := by
    refine Machine.run_invariant
      (P := fun live => live.Consistent ∧ Trails live c ∧ Complete live c) ?_
      ⟨hconsistent, htrails, h⟩ hrun
    rintro s a t ⟨hconsistent, htrails, hcomplete⟩ hstep
    exact ⟨hconsistent.step hstep, htrails.store hstep, hcomplete.store htrails hconsistent hstep⟩
  exact hall.2.2

end Connection

/-! ### The server -/

namespace RpcServer

open Connection

variable {fromStr : String → Except String RpcRequest} {server server' : RpcServer} {i : Nat}

/-- Every delta the client of one connection asks for starts where its copy lacks nothing older. -/
def SyncsCovered (fromStr : String → Except String RpcRequest) (i : Nat) (server : RpcServer) :
    ServerAction → Prop
  | .connection j a => j = i → ∀ served ∈ server.connections[i]?,
      ∀ c' ∈ { served.connection with handler := server.handler }.step fromStr a,
        ∀ line ∈ c'.dispatched.drop served.connection.dispatched.length,
          ∀ req ∈ (fromStr line).toOption, req.method = "sync.delta" →
            Covered server.live served.connection
              (((req.params.get "since").bind Value.asU64).getD 0)
  | _ => True

/-- Everything the connections are told is true of the store. -/
structure Trailed (server : RpcServer) : Prop where
  consistent : server.live.Consistent
  trails : ∀ (i : Nat) (served : Served), server.connections[i]? = some served →
    Trails server.live served.connection

theorem Trailed.connection (h : server.Trailed) {ca : ConnectionAction} {served : Served}
    {c' : Connection} {live : LiveStore} (hserved : server.connections[i]? = some served)
    (hstep : { served.connection with handler := server.handler }.step fromStr ca = some c')
    {bs : List StoreAction} (hrun : Machine.run LiveStore.step server.live bs = some live) :
    Trails live c' := by
  have htrails : Trails server.live { served.connection with handler := server.handler } :=
    ⟨(h.trails i served hserved).behind, (h.trails i served hserved).subscribed⟩
  exact (htrails.speaks h.consistent rfl rfl (speaks_of_step hstep)).run hrun

theorem Trailed.step (h : server.Trailed) {a : ServerAction}
    (hstep : server.step fromStr a = some server') : server'.Trailed := by
  obtain ⟨sa, live, _, hlive, rfl⟩ | ⟨_, hlive, hconnections⟩ | ⟨text, _, rfl⟩
    | ⟨i, ca, served, c', live, _, hserved, hc', hperform, rfl, calling, hconnections⟩ :=
    step_cases hstep
  · exact ⟨h.consistent.step hlive, fun j served hj => (h.trails j served hj).store hlive⟩
  · exact ⟨hlive ▸ h.consistent, fun j served hj =>
      hlive ▸ h.trails j served (hconnections ▸ hj)⟩
  · refine ⟨h.consistent, ?_⟩
    intro j served hj
    obtain hj | ⟨-, rfl⟩ := Slots.getElem?_concat_cases hj
    · exact h.trails j served hj
    · refine ⟨?_, by simp [Connection.new]⟩
      intro received hreceived k
      obtain rfl : received = [] := by simpa [Connection.new, lines] using hreceived
      cases hget : server.live.get k with
      | none => exact Behind.refl _
      | some v => exact Or.inr (by simp [Follower.after, Follower.new])
  · obtain ⟨bs, hbs⟩ := exists_run_of_perform hperform
    refine ⟨LiveStore.run_consistent h.consistent hbs, ?_⟩
    intro j s hj
    rw [hconnections, List.getElem?_set] at hj
    split at hj
    · split at hj
      · obtain rfl := Option.some.inj hj
        exact h.connection hserved hc' hbs
      · simp at hj
    · exact (h.trails j s hj).run hbs

/-- The follower at one connection lacks nothing that it will not learn of. -/
def FollowedAt (i : Nat) (server : RpcServer) : Prop :=
  ∀ served, server.connections[i]? = some served → Complete server.live served.connection

theorem FollowedAt.step (h : server.FollowedAt i) (htrailed : server.Trailed) {a : ServerAction}
    (hguard : SyncsCovered fromStr i server a) (hstep : server.step fromStr a = some server') :
    server'.FollowedAt i := by
  intro s hs
  obtain ⟨sa, live, _, hlive, rfl⟩ | ⟨_, hlive, hconnections⟩ | ⟨text, _, rfl⟩
    | ⟨j, ca, served, c', live, rfl, hserved, hc', hperform, rfl, calling, hconnections⟩ :=
    step_cases hstep
  · exact (h s hs).store (htrailed.trails i s hs) htrailed.consistent hlive
  · exact hlive ▸ h s (hconnections ▸ hs)
  · obtain hs | ⟨-, rfl⟩ := Slots.getElem?_concat_cases hs
    · exact h s hs
    · intro _ hstale
      simp [Connection.follower, Connection.new, lines, Follower.after, Follower.new] at hstale
  · obtain ⟨bs, hbs⟩ := exists_run_of_perform hperform
    rw [hconnections, List.getElem?_set] at hs
    split at hs
    · rename_i hji
      subst hji
      split at hs
      · obtain rfl := Option.some.inj hs
        have hcomplete : Complete server.live
            { served.connection with handler := server.handler } := h served hserved
        have htrails : Trails server.live { served.connection with handler := server.handler } :=
          ⟨(htrailed.trails j served hserved).behind, (htrailed.trails j served hserved).subscribed⟩
        have hspeaks := hcomplete.speaks htrails htrailed.consistent rfl rfl
          (running_of_step hc') ?_ (speaks_of_step hc')
        · have htrails' := htrailed.connection hserved hc' (rfl : Machine.run _ _ [] = _)
          exact hspeaks.run htrails' htrailed.consistent hbs
        · intro line req hdispatched hreq hmethod
          refine hguard rfl served hserved c' hc' line ?_ req ?_ hmethod
          · simp [hdispatched]
          · simp [hreq, Except.toOption]
      · simp at hs
    · exact (h s hs).run (htrailed.trails i s hs) htrailed.consistent hbs

theorem trailed_new (nodeId : String) (capacity : Nat) : (new nodeId capacity).Trailed where
  consistent := LiveStore.consistent_of_tasks_nil rfl rfl
  trails := by simp [new]

theorem run_followedAt {nodeId : String} {capacity : Nat} {as : List ServerAction}
    {final : RpcServer}
    (hrun : Machine.run (step fromStr) (new nodeId capacity) as = some final)
    (hguarded : Machine.Guarded (step fromStr) (SyncsCovered fromStr i) (new nodeId capacity) as) :
    final.FollowedAt i := by
  have hboth : final.Trailed ∧ final.FollowedAt i := by
    refine Machine.run_invariant_of_guarded
      (P := fun server => server.Trailed ∧ server.FollowedAt i) ?_
      ⟨trailed_new nodeId capacity, by simp [FollowedAt, new]⟩ hguarded hrun
    rintro server a server' ⟨htrailed, hfollowed⟩ hguard hstep
    exact ⟨htrailed.step hstep, hfollowed.step htrailed hguard hstep⟩
  exact hboth.2

/-- **A follower ends up with the store's map.** Whatever the other connections and tasks do, the
copy a client makes of what it has received so far is never ahead of the store. When every delta the
client asked for started where its copy lacked nothing older, then whatever was lost on the way and
however often it lagged: once no call is in progress, everything sent has been received, and the
client has had a delta since its subscription and since its last lag, its copy and the store agree
on every key it subscribed to. -/
theorem follower_converges {nodeId : String} {capacity : Nat} {as : List ServerAction}
    {final : RpcServer} {served : Served}
    (hrun : Machine.run (step fromStr) (new nodeId capacity) as = some final)
    (hserved : final.connections[i]? = some served) :
    (∀ received, received <+: served.connection.lines → ∀ k,
        Behind LwwValue.stamp ((Follower.after received).mirror.lookup k) (final.live.get k))
      ∧ (Machine.Guarded (step fromStr) (SyncsCovered fromStr i) (new nodeId capacity) as →
          final.live.Idle → served.connection.Running →
          served.connection.subscription = some { next := final.live.events.length } →
          served.connection.follower.stale = false → ∀ k, served.connection.Wants k →
            served.connection.follower.mirror.lookup k = final.live.get k) := by
  have htrailed : final.Trailed := Machine.run_invariant (P := Trailed)
    (fun _ _ _ h hstep => h.step hstep) (trailed_new nodeId capacity) hrun
  have htrails := htrailed.trails i served hserved
  refine ⟨htrails.behind, ?_⟩
  intro hguarded hidle hrunning hreceived hstale k hwants
  exact htrails.lookup_eq (run_followedAt hrun hguarded served hserved) hidle hrunning hreceived
    hstale hwants

instance (server : RpcServer) (a : ServerAction) :
    Decidable (SyncsCovered fromStr i server a) :=
  match a with
  | .connection j a => inferInstanceAs (Decidable (j = i → ∀ served ∈ server.connections[i]?,
      ∀ c' ∈ { served.connection with handler := server.handler }.step fromStr a,
        ∀ line ∈ c'.dispatched.drop served.connection.dispatched.length,
          ∀ req ∈ (fromStr line).toOption, req.method = "sync.delta" →
            ∀ entry ∈ server.live.snapshot, served.connection.Wants entry.1 →
              entry.2.timestamp ≤ (((req.params.get "since").bind Value.asU64).getD 0) →
                served.connection.follower.mirror.Dominates entry.1 entry.2))
  | .store _ | .peers _ | .accept _ | .cancel | .shutDown => isTrue trivial

def deltaLine : String := "\x7b\"jsonrpc\":\"2.0\",\"method\":\"sync.delta\",\"id\":2\x7d"

def followerRequest (line : String) : Except String RpcRequest :=
  if line = subscribeLine then
    .ok { jsonrpc := "2.0", method := "state.subscribe", params := .null, id := some (.ofNat 1) }
  else if line = deltaLine then
    .ok { jsonrpc := "2.0", method := "sync.delta", params := .null, id := some (.ofNat 2) }
  else .error "expected value"

/-- A client that subscribes, asks for a delta, lags behind two writes and asks again. -/
def lagged : List ServerAction :=
  [.accept (subscribeLine ++ "\n" ++ deltaLine ++ "\n" ++ deltaLine ++ "\n").toList,
    .connection 0 (.arrive 146),
    .connection 0 (.fill 150 0 fun _ => 0), .connection 0 (.write true),
    .connection 0 (.fill 150 0 fun _ => 0), .connection 0 (.write true),
    .store (.callSet "k" "a" 1), .store (.advance 0), .store (.advance 0),
    .store (.callSet "m" "b" 2), .store (.advance 1), .store (.advance 1),
    .connection 0 .event, .connection 0 (.write true),
    .connection 0 .event, .connection 0 (.write true),
    .connection 0 (.fill 150 0 fun _ => 0)]

theorem follower_converges_lagged :
    ∃ final served, Machine.run (step followerRequest) (new "node-a" 1) lagged = some final
      ∧ final.connections[0]? = some served
      ∧ served.connection.follower.mirror.lookup "k" = final.live.get "k" := by
  have hany : (Machine.run (step followerRequest) (new "node-a" 1) lagged).any (fun final =>
      decide final.live.Idle && final.connections[0]?.any fun served =>
        served.connection.subscription = some { next := final.live.events.length }
          ∧ served.connection.follower.stale = false ∧ served.connection.Wants "k"
          ∧ served.connection.Running) = true := by
    decide +kernel
  have hguarded : Machine.Guarded (step followerRequest) (SyncsCovered followerRequest 0)
      (new "node-a" 1) lagged := by
    decide +kernel
  obtain ⟨final, hrun, hany⟩ := Machine.exists_of_any_run hany
  rw [Bool.and_eq_true, decide_eq_true_eq] at hany
  obtain ⟨hidle, hany⟩ := hany
  obtain ⟨served, hserved, hfacts⟩ := (Option.any_eq_true _ _).mp hany
  obtain ⟨hsubscription, hstale, hwants, hrunning⟩ := of_decide_eq_true hfacts
  exact ⟨final, served, hrun, hserved, (follower_converges hrun hserved).2 hguarded hidle hrunning
    hsubscription hstale "k" hwants⟩

end RpcServer

end StateSync
