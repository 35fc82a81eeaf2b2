import StateSync.Proof.Circulation

/-!
# Rounds and generations

A message carries the number of the round it was pushed in. Between two restarts of a node these
numbers never decrease from one of its pushes to the next, none is used in two rounds, and a round
pushes to each peer once and to no more peers than the fanout, however the tasks that send the
messages are scheduled. The counter has 64 bits in the program and is a `Nat` here: a node does not
live to its 2^64-th round.
-/

namespace StateSync.Cluster

variable {ι : Type} [DecidableEq ι] {net : Network ι} {c c' : Cluster ι}

/-- What node `n` has pushed, in order: the round, and the entry of the peer table. -/
def pushes (c : Cluster ι) (n : ι) : List (Nat × String) :=
  (c.exchanges.filter fun ex => ex.sender = n).map fun ex => (ex.msg.generation, ex.peerId)

/-- The rounds of a node so far, and the one that is going on. -/
structure Rounds (fanout : Nat) (pushes : List (Nat × String)) (node : Node) : Prop where
  ordered : (pushes.map Prod.fst).Pairwise (· ≤ ·)
  before : ∀ push ∈ pushes, push.1 < node.generation
  distinct : pushes.Nodup
  bounded : ∀ gen, pushes.countP (fun push => push.1 = gen) ≤ fanout
  current : ∀ gen targets, node.round = .sending gen targets → gen + 1 = node.generation
    ∧ (targets.map Prod.fst).Nodup ∧ (∀ target ∈ targets, (gen, target.1) ∉ pushes)
    ∧ pushes.countP (fun push => push.1 = gen) + targets.length ≤ fanout

theorem rounds_new (config : Config) (fanout : Nat) : Rounds fanout [] (Node.new config) where
  ordered := List.Pairwise.nil
  before := by simp
  distinct := List.nodup_nil
  bounded := by simp
  current := by simp [Node.new]

section

variable {fanout : Nat} {pushed : List (Nat × String)} {node node' : Node}

theorem Rounds.of_same (h : Rounds fanout pushed node)
    (hgeneration : node'.generation = node.generation)
    (hround : ∀ gen targets, node'.round = .sending gen targets →
      node.round = .sending gen targets) :
    Rounds fanout pushed node' where
  ordered := h.ordered
  before := fun push hpush => hgeneration ▸ h.before push hpush
  distinct := h.distinct
  bounded := h.bounded
  current := fun gen targets hsending =>
    hgeneration ▸ h.current gen targets (hround gen targets hsending)

theorem Rounds.count_eq_zero (h : Rounds fanout pushed node) :
    pushed.countP (fun push => push.1 = node.generation) = 0 := by
  rw [List.countP_eq_zero]
  intro push hpush
  have hlt := h.before push hpush
  simp only [decide_eq_true_eq]
  omega

/-- A round begins, under a number that was not used before. -/
theorem Rounds.start (h : Rounds fanout pushed node) {targets : List (String × PeerInfo)}
    (hnodup : (targets.map Prod.fst).Nodup) (hlength : targets.length ≤ fanout) :
    Rounds fanout pushed { node with
      generation := node.generation + 1
      round := .sending node.generation targets } where
  ordered := h.ordered
  before := fun push hpush => Nat.lt_succ_of_lt (h.before push hpush)
  distinct := h.distinct
  bounded := h.bounded
  current := by
    intro gen targets' hsending
    obtain ⟨rfl, rfl⟩ := RoundPc.sending.inj hsending
    refine ⟨rfl, hnodup, ?_, ?_⟩
    · intro target _ hmem
      exact absurd (h.before _ hmem) (lt_irrefl _)
    · rw [h.count_eq_zero, Nat.zero_add]
      exact hlength

theorem Rounds.skip (h : Rounds fanout pushed node) {gen : Nat} {target : String × PeerInfo}
    {rest : List (String × PeerInfo)} (hround : node.round = .sending gen (target :: rest)) :
    Rounds fanout pushed { node with
      round := if rest = [] then .idle else .sending gen rest } where
  ordered := h.ordered
  before := h.before
  distinct := h.distinct
  bounded := h.bounded
  current := by
    intro gen' targets' hsending
    obtain ⟨hgen, hnodup, hfresh, hcount⟩ := h.current gen _ hround
    simp only at hsending
    split at hsending
    · simp at hsending
    · obtain ⟨rfl, rfl⟩ := RoundPc.sending.inj hsending
      refine ⟨hgen, hnodup.of_cons, fun t ht => hfresh t (List.mem_cons_of_mem _ ht), ?_⟩
      rw [List.length_cons] at hcount
      omega

/-- One push of the round. -/
theorem Rounds.push (h : Rounds fanout pushed node) {gen : Nat} {target : String × PeerInfo}
    {rest : List (String × PeerInfo)} (hround : node.round = .sending gen (target :: rest)) :
    Rounds fanout (pushed ++ [(gen, target.1)]) { node with
      round := if rest = [] then .idle else .sending gen rest } := by
  obtain ⟨hgen, hnodup, hfresh, hcount⟩ := h.current gen _ hround
  have hnew := hfresh target List.mem_cons_self
  have hcounts (gen' : Nat) : (pushed ++ [(gen, target.1)]).countP (fun push => push.1 = gen')
      = pushed.countP (fun push => push.1 = gen') + if gen = gen' then 1 else 0 := by
    rw [List.countP_append, List.countP_singleton]
    simp
  rw [List.length_cons] at hcount
  refine ⟨?_, ?_, ?_, ?_, ?_⟩
  · rw [List.map_append, List.pairwise_append]
    refine ⟨h.ordered, List.pairwise_singleton _ _, ?_⟩
    intro g hg g' hg'
    obtain ⟨push, hpush, rfl⟩ := List.mem_map.mp hg
    obtain rfl := List.mem_singleton.mp hg'
    have hlt := h.before push hpush
    omega
  · intro push hpush
    obtain hpush | hpush := List.mem_append.mp hpush
    · exact h.before push hpush
    · rw [List.mem_singleton.mp hpush]
      exact hgen ▸ Nat.lt_succ_self gen
  · simpa using h.distinct.concat hnew
  · intro gen'
    rw [hcounts]
    split
    · rename_i heq
      subst heq
      omega
    · simpa using h.bounded gen'
  · intro gen' targets' hsending
    simp only at hsending
    split at hsending
    · simp at hsending
    · obtain ⟨rfl, rfl⟩ := RoundPc.sending.inj hsending
      refine ⟨hgen, hnodup.of_cons, ?_, ?_⟩
      · intro t ht hmem
        obtain hmem | hmem := List.mem_append.mp hmem
        · exact hfresh t (List.mem_cons_of_mem _ ht) hmem
        · -- the same entry does not come twice in the targets
          have hkey : t.1 = target.1 := (Prod.mk.inj (List.mem_singleton.mp hmem)).2
          rw [List.map_cons, List.nodup_cons] at hnodup
          exact hnodup.1 (hkey ▸ List.mem_map_of_mem ht)
      · rw [hcounts, if_pos rfl]
        omega

end

/-! ### The steps of a cluster -/

theorem startRound_cases {n : ι} {shuffled : List (String × PeerInfo)}
    (hstep : c.step net (.startRound n shuffled) = some c') :
    ∃ due yielded, (c.nodes n).round = .scanning due yielded ∧ shuffled.Perm yielded
      ∧ (c' = c.setNode n { c.nodes n with round := .idle }
        ∨ c' = c.setNode n { c.nodes n with
            generation := (c.nodes n).generation + 1
            round := .sending (c.nodes n).generation
              (gossipTargets (net.config n).gossipFanout shuffled) }) := by
  simp only [step] at hstep
  split at hstep
  · rename_i due yielded hround
    split at hstep
    · rename_i hperm
      refine ⟨due, yielded, hround, hperm.2, ?_⟩
      split at hstep
      · exact Or.inl (Option.some.inj hstep).symm
      · exact Or.inr (Option.some.inj hstep).symm
    · simp at hstep
  · simp at hstep

theorem sendNext_cases {n : ι} {delta : StateDelta}
    (hstep : c.step net (.sendNext n delta) = some c') :
    ∃ gen target rest, (c.nodes n).round = .sending gen (target :: rest)
      ∧ (c' = c.setNode n { c.nodes n with
            round := if rest = [] then .idle else .sending gen rest }
        ∨ ∃ ex : Exchange ι, ex.sender = n ∧ ex.msg.generation = gen ∧ ex.peerId = target.1
          ∧ c' = { c.setNode n { c.nodes n with
              round := if rest = [] then .idle else .sending gen rest } with
            exchanges := c.exchanges ++ [ex] }) := by
  simp only [step] at hstep
  split at hstep
  · rename_i gen peerId info rest hround
    refine ⟨gen, (peerId, info), rest, hround, ?_⟩
    split at hstep
    · split at hstep
      · exact Or.inl (Option.some.inj hstep).symm
      · rename_i msg maxTs hpush
        obtain ⟨_, rfl, _⟩ : _ ∧ _ = msg ∧ maxSentTs delta = maxTs := by
          simpa [buildPush] using hpush
        exact Or.inr ⟨_, rfl, rfl, rfl, (Option.some.inj hstep).symm⟩
    · simp at hstep
  · simp at hstep

theorem pushes_eq_flatMap (n : ι) : c.pushes n = c.exchanges.flatMap fun ex =>
    if ex.sender = n then [(ex.msg.generation, ex.peerId)] else [] := by
  unfold pushes
  induction c.exchanges with
  | nil => rfl
  | cons ex exchanges ih =>
      rw [List.flatMap_cons, ← ih, List.filter_cons]
      by_cases hn : ex.sender = n
      · simp [hn]
      · simp [hn]

theorem pushes_of_samePush {n : ι} (hlength : c'.exchanges.length = c.exchanges.length)
    (hsame : ∀ (x : Nat) (ex' : Exchange ι), c'.exchanges[x]? = some ex' →
      ∃ ex : Exchange ι, c.exchanges[x]? = some ex ∧ SamePush ex ex') :
    c'.pushes n = c.pushes n := by
  have hmap : c'.exchanges.map (fun ex =>
        if ex.sender = n then [(ex.msg.generation, ex.peerId)] else [])
      = c.exchanges.map fun ex =>
        if ex.sender = n then [(ex.msg.generation, ex.peerId)] else [] := by
    apply List.ext_getElem (by simpa using hlength)
    intro x hx _
    rw [List.length_map] at hx
    obtain ⟨ex, hex, hpush⟩ := hsame x _ (List.getElem?_eq_getElem hx)
    obtain ⟨_, rfl⟩ := List.getElem?_eq_some_iff.mp hex
    rw [List.getElem_map, List.getElem_map, hpush.sender, hpush.msg, hpush.peerId]
  rw [pushes_eq_flatMap, pushes_eq_flatMap, List.flatMap_def, List.flatMap_def, hmap]

/-- Only the loop of a round pushes. -/
theorem Steps.pushes {a : Action ι} (h : Steps net c a c') (ha : ∀ m delta, a ≠ .sendNext m delta)
    (n : ι) : c'.pushes n = c.pushes n := by
  have hlength : c'.exchanges.length = c.exchanges.length := by
    cases h with
    | send hcopy hcopies hdelta hfrom haddr hmsg => exact absurd rfl (ha _ _)
    | _ => simp [setNode, setExchange]
  apply pushes_of_samePush hlength
  intro x ex' hx
  obtain ⟨ex, hex, hpush, _⟩ | ⟨hx', _⟩ := h.samePush hx
  · exact ⟨ex, hex, hpush⟩
  · obtain ⟨hlt, _⟩ := List.getElem?_eq_some_iff.mp hx
    omega

/-- A step outside the rounds leaves the round of a node that does not stop as it was. -/
theorem Steps.round_kept {a : Action ι} (h : Steps net c a c') (ha : a.roundNode = none) {n : ι}
    (hn : a ≠ .restart n) :
    (c'.nodes n).generation = (c.nodes n).generation
      ∧ (c'.nodes n).round = (c.nodes n).round := by
  have hupdate {m : ι} {node : Node}
      (hnode : node.generation = (c.nodes m).generation ∧ node.round = (c.nodes m).round) :
      (Function.update c.nodes m node n).generation = (c.nodes n).generation
        ∧ (Function.update c.nodes m node n).round = (c.nodes n).round :=
    (Function.forall_update_iff c.nodes fun n node =>
      node.generation = (c.nodes n).generation ∧ node.round = (c.nodes n).round).mpr
      ⟨hnode, fun _ _ => ⟨rfl, rfl⟩⟩ n
  cases h with
  | round hact hcopies => simp [ha] at hact
  | send hcopy hcopies hdelta hfrom haddr hmsg => simp [Action.roundNode] at ha
  | store hact hlive => exact hupdate ⟨rfl, rfl⟩
  | accept hex hr hrecv hlive => exact hupdate ⟨rfl, rfl⟩
  | register hex hrecv htask => exact hupdate ⟨rfl, rfl⟩
  | recvAck hex hsend hrecv => exact hupdate ⟨rfl, rfl⟩
  | @restart m =>
      have hne : n ≠ m := by
        rintro rfl
        exact hn rfl
      simp [Function.update_of_ne hne]
  | writeAck hex hrecv => exact ⟨rfl, rfl⟩
  | failSend hex hsend => exact ⟨rfl, rfl⟩
  | lose hex => exact ⟨rfl, rfl⟩

theorem Steps.pushes_sendNext {n m : ι} {delta : StateDelta} {fanout : Nat}
    {pushed : List (Nat × String)} (h : Rounds fanout pushed (c.nodes n))
    (hstep : c.step net (.sendNext m delta) = some c') :
    ∃ new, c'.pushes n = c.pushes n ++ new ∧ Rounds fanout (pushed ++ new) (c'.nodes n) := by
  obtain ⟨gen, target, rest, hround, rfl | ⟨ex, rfl, rfl, hpeer, rfl⟩⟩ := sendNext_cases hstep
  · refine ⟨[], (List.append_nil _).symm, ?_⟩
    rw [List.append_nil]
    by_cases hm : m = n
    · subst hm
      simpa [setNode] using h.skip hround
    · simpa [setNode, Function.update_of_ne (Ne.symm hm)] using h
  · rw [setNode, pushes_eq_flatMap, List.flatMap_append, ← pushes_eq_flatMap]
    refine ⟨_, rfl, ?_⟩
    by_cases hm : ex.sender = n
    · subst hm
      simpa [hpeer] using h.push hround
    · simpa [hm, Function.update_of_ne (Ne.symm hm)] using h

/-- One step of the cluster: what the node pushed before it is kept, and the round goes on. -/
theorem Rounds.step {n : ι} {a : Action ι} {pushed : List (Nat × String)}
    (h : Rounds (net.config n).gossipFanout pushed (c.nodes n)) (hn : a ≠ .restart n)
    (hnodup : ∀ m, ((c.nodes m).round.copies.map Prod.fst).Nodup)
    (hstep : c.step net a = some c') :
    ∃ new, c'.pushes n = c.pushes n ++ new
      ∧ Rounds (net.config n).gossipFanout (pushed ++ new) (c'.nodes n) := by
  by_cases hsend : ∃ m delta, a = .sendNext m delta
  · obtain ⟨m, delta, rfl⟩ := hsend
    exact Steps.pushes_sendNext h hstep
  · have hsteps := step_spec hstep
    refine ⟨[], ?_, ?_⟩
    · rw [List.append_nil]
      exact hsteps.pushes (fun m delta heq => hsend ⟨m, delta, heq⟩) n
    · rw [List.append_nil]
      have hupdate {m : ι} {node : Node}
          (hnode : m = n → Rounds (net.config n).gossipFanout pushed node) :
          Rounds (net.config n).gossipFanout pushed (Function.update c.nodes m node n) := by
        by_cases hm : m = n
        · subst hm
          simpa using hnode rfl
        · rwa [Function.update_of_ne (Ne.symm hm)]
      cases a with
      | beginRound m =>
          obtain ⟨due, rfl⟩ := step_beginRound hstep
          apply hupdate
          rintro rfl
          exact h.of_same rfl (by simp)
      | scanPeer m peerId =>
          obtain ⟨info, due, yielded, _, _, _, rfl⟩ := step_scanPeer hstep
          apply hupdate
          rintro rfl
          exact h.of_same rfl (by simp)
      | startRound m shuffled =>
          obtain ⟨due, yielded, hround, hperm, rfl | rfl⟩ := startRound_cases hstep
          · apply hupdate
            rintro rfl
            exact h.of_same rfl (by simp)
          · apply hupdate
            rintro rfl
            have hyielded := hnodup m
            rw [hround] at hyielded
            have hshuffled := (hperm.map Prod.fst).nodup_iff.mpr hyielded
            exact h.start (hshuffled.sublist ((List.take_sublist _ _).map Prod.fst))
              ((List.length_take_le _ _).trans (min_le_left _ _))
      | sendNext m delta => exact absurd ⟨m, delta, rfl⟩ hsend
      | _ =>
          obtain ⟨hgeneration, hround⟩ := hsteps.round_kept rfl hn
          exact h.of_same hgeneration fun gen targets hsending => hround ▸ hsending

theorem run_rounds {n : ι} {c₀ : Cluster ι} {bs : List (Action ι)}
    (hnew : (c₀.nodes n).generation = 0 ∧ (c₀.nodes n).round = .idle)
    (hnodup : ∀ m, ((c₀.nodes m).round.copies.map Prod.fst).Nodup)
    (hstable : Action.restart n ∉ bs) (hrun : Machine.run (step net) c₀ bs = some c) :
    ∃ pushed, c.pushes n = c₀.pushes n ++ pushed
      ∧ Rounds (net.config n).gossipFanout pushed (c.nodes n) := by
  have hguard : Machine.Guarded (step net) (fun _ a => a ≠ .restart n) c₀ bs := by
    apply Machine.guarded_of_forall
    rintro a ha _ rfl
    exact hstable ha
  refine (Machine.run_invariant_of_guarded (P := fun c : Cluster ι =>
    (∃ pushed, c.pushes n = c₀.pushes n ++ pushed
        ∧ Rounds (net.config n).gossipFanout pushed (c.nodes n))
      ∧ ∀ m, ((c.nodes m).round.copies.map Prod.fst).Nodup) ?_ ⟨?_, hnodup⟩ hguard hrun).1
  · rintro t a t' ⟨⟨pushed, hpushed, hrounds⟩, hcopies⟩ hn hstep
    obtain ⟨new, hnew, hrounds'⟩ := hrounds.step hn hcopies hstep
    refine ⟨⟨pushed ++ new, ?_, hrounds'⟩, step_nodup_copies hstep hcopies⟩
    rw [hnew, hpushed, List.append_assoc]
  · refine ⟨[], (List.append_nil _).symm, ?_⟩
    exact (rounds_new (net.config n) _).of_same hnew.1 (by simp [hnew.2])

/-- **Rounds.** Between two starts of a node the numbers of its rounds never decrease from one of
its pushes to the next, it pushes at most once to an entry of its table in each round, and in no
round to more entries than the fanout, whatever the other nodes and the tasks that send do. -/
theorem pushes_in_rounds {n : ι} {c₀ : Cluster ι} {as bs : List (Action ι)}
    (hstart : as = [] ∨ ∃ before, as = before ++ [.restart n])
    (hrun : Machine.run (step net) (init net) as = some c₀) (hstable : Action.restart n ∉ bs)
    (hrest : Machine.run (step net) c₀ bs = some c) :
    ∃ pushed, c.pushes n = c₀.pushes n ++ pushed ∧ (pushed.map Prod.fst).Pairwise (· ≤ ·)
      ∧ pushed.Nodup
      ∧ ∀ gen, pushed.countP (fun push => push.1 = gen) ≤ (net.config n).gossipFanout := by
  have hnew : (c₀.nodes n).generation = 0 ∧ (c₀.nodes n).round = .idle := by
    obtain rfl | ⟨before, rfl⟩ := hstart
    · obtain rfl := Option.some.inj hrun
      exact ⟨rfl, rfl⟩
    · obtain ⟨t, _, hlast⟩ := Machine.run_concat_eq_some.mp hrun
      obtain rfl := Option.some.inj hlast
      simp [Node.new]
  obtain ⟨pushed, hpushed, hrounds⟩ := run_rounds hnew (run_nodup_copies hrun) hstable hrest
  exact ⟨pushed, hpushed, hrounds.ordered, hrounds.distinct, hrounds.bounded⟩

/-- Node `a` introduces itself and stops, starts again and introduces itself twice. -/
theorem pushes_in_rounds_restarted :
    ∃ c₀ c, Machine.run (step twoNodes) (init twoNodes) (introduces ++ [.restart false]) = some c₀
      ∧ Machine.run (step twoNodes) c₀
        [.beginRound false, .scanPeer false "10.0.0.2:7071", .startRound false [seedCopy],
          .sendNext false [], .beginRound false, .scanPeer false "10.0.0.2:7071",
          .startRound false [seedCopy], .sendNext false []] = some c
      ∧ (c.pushes false).map Prod.fst = [0, 0, 1]
      ∧ ∃ pushed, c.pushes false = c₀.pushes false ++ pushed
        ∧ (pushed.map Prod.fst).Pairwise (· ≤ ·) ∧ pushed.Nodup
        ∧ ∀ gen, pushed.countP (fun push => push.1 = gen) ≤ 1 := by
  have hruns : (Machine.run (step twoNodes) (init twoNodes) ((introduces ++ [.restart false])
      ++ [.beginRound false, .scanPeer false "10.0.0.2:7071", .startRound false [seedCopy],
        .sendNext false [], .beginRound false, .scanPeer false "10.0.0.2:7071",
        .startRound false [seedCopy], .sendNext false []])).any (fun c =>
      (c.pushes false).map Prod.fst = [0, 0, 1]) := by
    decide +kernel
  obtain ⟨c, hrun, hpushes⟩ := Machine.exists_of_any_run hruns
  obtain ⟨c₀, hrun, hrest⟩ := Machine.run_append_eq_some.mp hrun
  refine ⟨c₀, c, hrun, hrest, of_decide_eq_true hpushes, ?_⟩
  exact pushes_in_rounds (Or.inr ⟨introduces, rfl⟩) hrun (by decide) hrest

end StateSync.Cluster
