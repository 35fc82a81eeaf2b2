import StateSync.Lib.Machine
import Mathlib.Data.List.Nodup
import Mathlib.Logic.Function.Basic

/-!
# Linearizable objects

An object is specified by what its operations do one after the other, and implemented by a machine
on which calls overlap. A call is made, takes effect in one step, and returns. When no other step
changes the abstract state, the calls in the order in which they took effect are a sequential
execution with the same results, and a call that returned before another one was made comes before
it.
-/

namespace Linearizable

inductive Phase (ρ : Type*)
  | pending
  | committed (result : ρ)
  | returned (result : ρ)
deriving DecidableEq, Repr

structure Call (ο ρ : Type*) where
  op : ο
  phase : Phase ρ
deriving DecidableEq, Repr

variable {S ο ρ κ σ α : Type*}

/-- What the call will return or has returned, from the step on in which it takes effect. -/
def Call.result (call : Call ο ρ) : Option ρ :=
  match call.phase with
  | .pending => none
  | .committed result => some result
  | .returned result => some result

def Returned (calls : κ → Option (Call ο ρ)) (k : κ) : Prop :=
  ∃ op result, calls k = some { op := op, phase := .returned result }

/-- What one step may be, as the callers and the abstract state see it. -/
inductive Moves [DecidableEq κ] (apply : S → ο → S × ρ) (s : S) (calls : κ → Option (Call ο ρ)) :
    S → (κ → Option (Call ο ρ)) → Prop
  | internal : Moves apply s calls s calls
  | call {k : κ} {op : ο} (hfresh : calls k = none) :
      Moves apply s calls s (Function.update calls k (some { op := op, phase := .pending }))
  | commit {k : κ} {op : ο} (hpending : calls k = some { op := op, phase := .pending }) :
      Moves apply s calls (apply s op).1
        (Function.update calls k (some { op := op, phase := .committed (apply s op).2 }))
  | ret {k : κ} {op : ο} {result : ρ}
      (hcommitted : calls k = some { op := op, phase := .committed result }) :
      Moves apply s calls s
        (Function.update calls k (some { op := op, phase := .returned result }))

/-- What one step may be as the caller of the only call it concerns sees it. -/
inductive CallMoves (apply : S → ο → S × ρ) (s : S) : Call ο ρ → S → Call ο ρ → Prop
  | stays (call : Call ο ρ) : CallMoves apply s call s call
  | commit (op : ο) : CallMoves apply s { op := op, phase := .pending } (apply s op).1
      { op := op, phase := .committed (apply s op).2 }
  | ret (op : ο) (result : ρ) : CallMoves apply s { op := op, phase := .committed result } s
      { op := op, phase := .returned result }

/-- The calls, carried out in this order from one state to the other, give the results they have. -/
def Legal (apply : S → ο → S × ρ) (calls : κ → Option (Call ο ρ)) : S → List κ → S → Prop
  | s, [], t => s = t
  | s, k :: order, t => ∃ call, calls k = some call ∧ call.result = some (apply s call.op).2
      ∧ Legal apply calls (apply s call.op).1 order t

structure Linearization (apply : S → ο → S × ρ) (s t : S) (calls : κ → Option (Call ο ρ))
    (order : List κ) : Prop where
  nodup : order.Nodup
  legal : Legal apply calls s order t
  complete : ∀ k call, calls k = some call → call.result.isSome → k ∈ order

/-- The machine implements the specification: what holds of its states is kept, and every step is
one of those above. -/
structure Implements [DecidableEq κ] (step : σ → α → Option σ) (apply : S → ο → S × ρ)
    (P : σ → Prop) (abs : σ → S) (calls : σ → κ → Option (Call ο ρ)) : Prop where
  invariant : ∀ s a t, P s → step s a = some t → P t
  moves : ∀ s a t, P s → step s a = some t → Moves apply (abs s) (calls s) (abs t) (calls t)

/-! ### Sequential executions -/

variable {apply : S → ο → S × ρ} {calls calls' : κ → Option (Call ο ρ)} {s t : S}
  {order : List κ}

theorem legal_append {order' : List κ} : Legal apply calls s (order ++ order') t ↔
    ∃ u, Legal apply calls s order u ∧ Legal apply calls u order' t := by
  induction order generalizing s with
  | nil => simp [Legal]
  | cons k order ih =>
      simp only [List.cons_append, Legal, ih]
      constructor
      · rintro ⟨call, hcall, hresult, u, hfirst, hsecond⟩
        exact ⟨u, ⟨call, hcall, hresult, hfirst⟩, hsecond⟩
      · rintro ⟨u, ⟨call, hcall, hresult, hfirst⟩, hsecond⟩
        exact ⟨call, hcall, hresult, u, hfirst, hsecond⟩

/-- The calls that have a result keep it. -/
def Extends (calls calls' : κ → Option (Call ο ρ)) : Prop :=
  ∀ k call, calls k = some call → call.result.isSome →
    ∃ call', calls' k = some call' ∧ call'.op = call.op ∧ call'.result = call.result

theorem Legal.extend (h : Legal apply calls s order t) (hext : Extends calls calls') :
    Legal apply calls' s order t := by
  induction order generalizing s with
  | nil => exact h
  | cons k order ih =>
      obtain ⟨call, hcall, hresult, hrest⟩ := h
      obtain ⟨call', hcall', hop, hresult'⟩ := hext k call hcall (by rw [hresult]; rfl)
      refine ⟨call', hcall', ?_, ?_⟩
      · rw [hresult', hop, hresult]
      · rw [hop]
        exact ih hrest

theorem Legal.exists_call (h : Legal apply calls s order t) {k : κ} (hk : k ∈ order) :
    ∃ call, calls k = some call ∧ call.result.isSome := by
  induction order generalizing s with
  | nil => exact absurd hk List.not_mem_nil
  | cons j order ih =>
      obtain ⟨call, hcall, hresult, hrest⟩ := h
      obtain rfl | hk := List.mem_cons.mp hk
      · exact ⟨call, hcall, by rw [hresult]; rfl⟩
      · exact ih hrest hk

/-! ### One step -/

variable [DecidableEq κ]

theorem Moves.extends (h : Moves apply s calls t calls') : Extends calls calls' := by
  intro k call hcall hresult
  cases h with
  | internal => exact ⟨call, hcall, rfl, rfl⟩
  | @call j op hfresh =>
      have hne : k ≠ j := by
        rintro rfl
        simp [hfresh] at hcall
      exact ⟨call, by rw [Function.update_of_ne hne, hcall], rfl, rfl⟩
  | @commit j op hpending =>
      have hne : k ≠ j := by
        rintro rfl
        obtain rfl := Option.some.inj (hcall.symm.trans hpending)
        simp [Call.result] at hresult
      exact ⟨call, by rw [Function.update_of_ne hne, hcall], rfl, rfl⟩
  | @ret j op result hcommitted =>
      by_cases hk : k = j
      · subst hk
        obtain rfl := Option.some.inj (hcall.symm.trans hcommitted)
        exact ⟨_, Function.update_self k _ _, rfl, rfl⟩
      · exact ⟨call, by rw [Function.update_of_ne hk, hcall], rfl, rfl⟩

theorem CallMoves.moves {call call' : Call ο ρ} (h : CallMoves apply s call t call') {k : κ}
    (hk : calls k = some call) : Moves apply s calls t (Function.update calls k (some call')) := by
  cases h with
  | stays call =>
      rw [← hk, Function.update_eq_self]
      exact Moves.internal
  | commit op => exact Moves.commit hk
  | ret op result => exact Moves.ret hk

/-- A call that has returned stays as it is. -/
theorem Moves.returned (h : Moves apply s calls t calls') {k : κ} {op : ο} {result : ρ}
    (hk : calls k = some { op := op, phase := .returned result }) :
    calls' k = some { op := op, phase := .returned result } := by
  cases h with
  | internal => exact hk
  | @call j op' hfresh =>
      have hne : k ≠ j := by
        rintro rfl
        simp [hfresh] at hk
      rw [Function.update_of_ne hne, hk]
  | @commit j op' hpending =>
      have hne : k ≠ j := by
        rintro rfl
        simp [hpending] at hk
      rw [Function.update_of_ne hne, hk]
  | @ret j op' result' hcommitted =>
      have hne : k ≠ j := by
        rintro rfl
        simp [hcommitted] at hk
      rw [Function.update_of_ne hne, hk]

/-- A step leaves the order as it is, or one call takes effect and is the last of it. -/
theorem Linearization.move {s₀ : S} (h : Linearization apply s₀ s calls order)
    (hmove : Moves apply s calls t calls') :
    Linearization apply s₀ t calls' order
      ∨ ∃ k, k ∉ order ∧ Linearization apply s₀ t calls' (order ++ [k]) := by
  have hlegal := h.legal.extend hmove.extends
  cases hmove with
  | internal => exact Or.inl h
  | @call j op hfresh =>
      refine Or.inl ⟨h.nodup, hlegal, ?_⟩
      intro k call hcall hresult
      by_cases hk : k = j
      · subst hk
        rw [Function.update_self, Option.some.injEq] at hcall
        subst hcall
        simp [Call.result] at hresult
      · rw [Function.update_of_ne hk] at hcall
        exact h.complete k call hcall hresult
  | @ret j op result hcommitted =>
      refine Or.inl ⟨h.nodup, hlegal, ?_⟩
      intro k call hcall hresult
      by_cases hk : k = j
      · subst hk
        exact h.complete k _ hcommitted rfl
      · rw [Function.update_of_ne hk] at hcall
        exact h.complete k call hcall hresult
  | @commit j op hpending =>
      have hnew : j ∉ order := by
        intro hj
        obtain ⟨call, hcall, hresult⟩ := h.legal.exists_call hj
        obtain rfl := Option.some.inj (hcall.symm.trans hpending)
        simp [Call.result] at hresult
      refine Or.inr ⟨j, hnew, by simpa using h.nodup.concat hnew, ?_, ?_⟩
      · rw [legal_append]
        exact ⟨s, hlegal, _, Function.update_self j _ _, rfl, rfl⟩
      · intro k call hcall hresult
        by_cases hk : k = j
        · subst hk
          exact List.mem_append_right _ (List.mem_singleton_self _)
        · rw [Function.update_of_ne hk] at hcall
          exact List.mem_append_left _ (h.complete k call hcall hresult)

/-! ### Runs -/

/-- A call that had returned before another one was made comes before it. -/
def RealTime (step : σ → α → Option σ) (calls : σ → κ → Option (Call ο ρ)) (s : σ) (as : List α)
    (order : List κ) : Prop :=
  ∀ pre post mid, as = pre ++ post → Machine.run step s pre = some mid →
    ∀ j k, Returned (calls mid) j → calls mid k = none → k ∈ order → [j, k].Sublist order

section

variable {step : σ → α → Option σ} {P : σ → Prop} {abs : σ → S} {view : σ → κ → Option (Call ο ρ)}
  {c c' : σ} {as : List α}

theorem Implements.run_invariant (h : Implements step apply P abs view) (hc : P c)
    (hrun : Machine.run step c as = some c') : P c' :=
  Machine.run_invariant (fun s a t => h.invariant s a t) hc hrun

theorem Implements.run_returned (h : Implements step apply P abs view) (hc : P c)
    (hrun : Machine.run step c as = some c') {k : κ} {op : ο} {result : ρ}
    (hk : view c k = some { op := op, phase := .returned result }) :
    view c' k = some { op := op, phase := .returned result } := by
  have hboth : P c' ∧ view c' k = some { op := op, phase := .returned result } := by
    refine Machine.run_invariant
      (P := fun t => P t ∧ view t k = some { op := op, phase := .returned result }) ?_ ⟨hc, hk⟩ hrun
    rintro s a t ⟨hs, hreturned⟩ hstep
    exact ⟨h.invariant s a t hs hstep, (h.moves s a t hs hstep).returned hreturned⟩
  exact hboth.2

theorem RealTime.extend (h : Implements step apply P abs view) (hc : P c) {a : α} {d d' : σ}
    {order : List κ} (hreal : RealTime step view c as order)
    (hlin : Linearization apply (abs c) (abs d) (view d) order)
    (hrun : Machine.run step c as = some d) (hstep : step d a = some d') (new : List κ)
    (hnew : ∀ k ∈ new, new = [k])
    (hlin' : Linearization apply (abs c) (abs d') (view d') (order ++ new)) :
    RealTime step view c (as ++ [a]) (order ++ new) := by
  intro pre post mid hsplit hmid j k hj hnone hk
  obtain ⟨post, hpost⟩ | hfull : (∃ post', as = pre ++ post') ∨ post = [] := by
    cases post using List.reverseRecOn with
    | nil => exact Or.inr rfl
    | append_singleton post b =>
        rw [← List.append_assoc] at hsplit
        exact Or.inl ⟨post, (List.append_inj' hsplit rfl).1⟩
  · obtain hold | hk := List.mem_append.mp hk
    · exact (hreal pre post mid hpost hmid j k hj hnone hold).trans (List.sublist_append_left _ _)
    · -- the call that takes effect last comes after everything that had returned
      have hrest : Machine.run step mid post = some d := by
        rw [hpost, Machine.run_append_eq_some] at hrun
        obtain ⟨u, hu, hrest⟩ := hrun
        obtain rfl := Option.some.inj (hu.symm.trans hmid)
        exact hrest
      obtain ⟨op, result, hj⟩ := hj
      have hjd := h.run_returned (h.run_invariant hc hmid) hrest hj
      have hjorder : j ∈ order := hlin.complete j _ hjd rfl
      rw [hnew k hk]
      exact (List.singleton_sublist.mpr hjorder).append (List.Sublist.refl [k])
  · -- a call of the order has been made by now
    subst hfull
    rw [List.append_nil] at hsplit
    subst hsplit
    have hfinal : Machine.run step c (as ++ [a]) = some d' :=
      Machine.run_concat_eq_some.mpr ⟨d, hrun, hstep⟩
    obtain rfl := Option.some.inj (hmid.symm.trans hfinal)
    obtain ⟨call, hcall, _⟩ := hlin'.legal.exists_call hk
    simp [hnone] at hcall

/-- **An implementation is linearizable.** -/
theorem Implements.linearizable (h : Implements step apply P abs view) (hc : P c)
    (hnone : ∀ k, view c k = none) (hrun : Machine.run step c as = some c') :
    ∃ order, Linearization apply (abs c) (abs c') (view c') order
      ∧ RealTime step view c as order := by
  refine Machine.run_induction (P := fun as d => ∃ order,
    Linearization apply (abs c) (abs d) (view d) order ∧ RealTime step view c as order) ?_ ?_ hrun
  · refine ⟨[], ⟨List.nodup_nil, rfl, ?_⟩, ?_⟩
    · intro k call hcall
      simp [hnone] at hcall
    · intro pre post mid _ _ j k _ _ hk
      exact absurd hk List.not_mem_nil
  · rintro as d a d' hrun ⟨order, hlin, hreal⟩ hstep
    have hd := h.run_invariant hc hrun
    obtain hsame | ⟨k, _, hlonger⟩ := hlin.move (h.moves d a d' hd hstep)
    · refine ⟨order, hsame, ?_⟩
      have hextend := hreal.extend h hc hlin hrun hstep [] (by simp) (by simpa using hsame)
      simpa using hextend
    · refine ⟨order ++ [k], hlonger, hreal.extend h hc hlin hrun hstep [k] ?_ hlonger⟩
      intro j hj
      rw [List.mem_singleton.mp hj]

end

/-! ### What later calls see -/

section

variable {R : S → S → Prop}

omit [DecidableEq κ] in
theorem Legal.exists_state (hrefl : ∀ s, R s s) (htrans : ∀ s t u, R s t → R t u → R s u)
    (hop : ∀ s op, R s (apply s op).1) (h : Legal apply calls s order t) {k : κ} (hk : k ∈ order) :
    ∃ v call, calls k = some call ∧ call.result = some (apply v call.op).2 ∧ R s v := by
  induction order generalizing s with
  | nil => exact absurd hk List.not_mem_nil
  | cons j order ih =>
      obtain ⟨call, hcall, hresult, hrest⟩ := h
      obtain rfl | hk := List.mem_cons.mp hk
      · exact ⟨s, call, hcall, hresult, hrefl s⟩
      · obtain ⟨v, call', hcall', hresult', hR⟩ := ih hrest hk
        exact ⟨v, call', hcall', hresult', htrans _ _ _ (hop s call.op) hR⟩

omit [DecidableEq κ] in
/-- Of two calls in order, the second takes effect in a state that the one the first left behind is
related to, by whatever relates a state to those that the operations lead to. -/
theorem Legal.exists_states (hrefl : ∀ s, R s s) (htrans : ∀ s t u, R s t → R t u → R s u)
    (hop : ∀ s op, R s (apply s op).1) (h : Legal apply calls s order t) {j k : κ}
    (hjk : [j, k].Sublist order) :
    ∃ u v first second, calls j = some first ∧ calls k = some second
      ∧ first.result = some (apply u first.op).2 ∧ second.result = some (apply v second.op).2
      ∧ R (apply u first.op).1 v := by
  induction order generalizing s with
  | nil => simp at hjk
  | cons i order ih =>
      obtain ⟨call, hcall, hresult, hrest⟩ := h
      cases hjk with
      | cons _ hjk => exact ih hrest hjk
      | cons_cons _ hk =>
          obtain ⟨v, call', hcall', hresult', hR⟩ :=
            hrest.exists_state hrefl htrans hop (List.singleton_sublist.mp hk)
          exact ⟨s, v, call, call', hcall, hcall', hresult, hresult', hR⟩

end

end Linearizable
