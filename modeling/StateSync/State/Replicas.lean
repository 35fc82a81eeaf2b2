import StateSync.Proof.StoreInvariant

/-!
# Replicas that gossip

What gossip is to the stores: some entries a store holds are put into messages, and a message is
merged somewhere, later, again, in another batch, or never. All that is kept of the network is
therefore the entries that were ever gossiped, and a node may merge any of them at any time. The
exchanges of `Gossip.Cluster` are one way to do this.
-/

namespace StateSync

open Register

/-- The stores, and the entries of every message sent so far. -/
structure Replicas (ι : Type) where
  nodes : ι → LiveStore
  gossiped : StateDelta

inductive ReplicaAction (ι : Type)
  | store (n : ι) (a : StoreAction)
  | gossip (n : ι) (delta : StateDelta)
deriving DecidableEq, Repr

def StoreAction.Gossiped (gossiped : StateDelta) : StoreAction → Prop
  | .callMerge delta => delta ⊆ gossiped
  | _ => True

instance (gossiped : StateDelta) : ∀ a : StoreAction, Decidable (a.Gossiped gossiped)
  | .callMerge delta => inferInstanceAs (Decidable (delta ⊆ gossiped))
  | .callSet _ _ _ => isTrue trivial
  | .advance _ => isTrue trivial

/-- The entry is found at the store: in its map, in an event, or in a task that is about to send it
as an event. -/
def LiveStore.Shows (live : LiveStore) (k : String) (v : LwwValue) : Prop :=
  live.get k = some v ∨ (∃ task ∈ live.tasks, (k, v) ∈ task.holding)
    ∨ { key := k, value := v } ∈ live.events

namespace Replicas

variable {ι : Type} [DecidableEq ι]

def init (ids : ι → String) : Replicas ι where
  nodes := fun n => LiveStore.new (ids n)
  gossiped := []

def step (r : Replicas ι) : ReplicaAction ι → Option (Replicas ι)
  | .store n a =>
      if a.Gossiped r.gossiped then
        ((r.nodes n).step a).map fun live => { r with nodes := Function.update r.nodes n live }
      else none
  | .gossip n delta =>
      if ∀ entry ∈ delta, (r.nodes n).get entry.1 = some entry.2 then
        some { r with gossiped := r.gossiped ++ delta }
      else none

/-- The entries node `n` was offered since its start, by its own `set` calls and by merges. -/
def offeredTo (r : Replicas ι) (n : ι) : StateDelta := (r.nodes n).tasks.flatMap Task.offered

def Occurs (r : Replicas ι) (k : String) (v : LwwValue) : Prop :=
  (∃ n, (r.nodes n).Shows k v) ∨ (k, v) ∈ r.gossiped

variable {ids : ι → String} {r r' : Replicas ι}

theorem step_cases {a : ReplicaAction ι} (hstep : r.step a = some r') :
    (∃ n sa live, a = .store n sa ∧ sa.Gossiped r.gossiped ∧ (r.nodes n).step sa = some live
      ∧ r'.nodes = Function.update r.nodes n live ∧ r'.gossiped = r.gossiped) ∨
    (∃ n delta, a = .gossip n delta ∧ (∀ entry ∈ delta, (r.nodes n).get entry.1 = some entry.2)
      ∧ r' = { r with gossiped := r.gossiped ++ delta }) := by
  cases a with
  | store n sa =>
      simp only [step, Option.ite_none_right_eq_some, Option.map_eq_some_iff] at hstep
      obtain ⟨hsa, live, hlive, rfl⟩ := hstep
      exact Or.inl ⟨n, sa, live, rfl, hsa, hlive, rfl, rfl⟩
  | gossip n delta =>
      simp only [step, Option.ite_none_right_eq_some, Option.some.injEq] at hstep
      obtain ⟨hdelta, rfl⟩ := hstep
      exact Or.inr ⟨n, delta, rfl, hdelta, rfl⟩

end Replicas

end StateSync
