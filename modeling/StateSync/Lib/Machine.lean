import Mathlib.Logic.Basic
import Mathlib.Data.List.Induction

/-!
# Runs of a machine

A machine is a partial step function: an action is enabled in a state when the step is defined. A
run is a list of actions, each enabled in its turn. Everything proved about a system below is proved
of one step first; the rules here carry it to whole runs.
-/

namespace Machine

variable {σ α : Type*} (step : σ → α → Option σ)

/-- The state a list of actions leads to, when every action is enabled in its turn. -/
def run : σ → List α → Option σ
  | s, [] => some s
  | s, a :: as => (step s a).bind fun t => run t as

/-- Every step of the run meets a condition on the state before it and the action taken. -/
def Guarded (guard : σ → α → Prop) : σ → List α → Prop
  | _, [] => True
  | s, a :: as => guard s a ∧ ∀ t ∈ step s a, Guarded guard t as

instance decidableGuarded (guard : σ → α → Prop) [∀ s a, Decidable (guard s a)] :
    ∀ s as, Decidable (Guarded step guard s as)
  | _, [] => isTrue trivial
  | s, a :: as =>
      have (t : σ) : Decidable (Guarded step guard t as) := decidableGuarded guard t as
      inferInstanceAs (Decidable (guard s a ∧ ∀ t ∈ step s a, Guarded step guard t as))

variable {step}

@[simp]
theorem run_nil (s : σ) : run step s [] = some s := rfl

theorem run_cons_eq_some {s t : σ} {a : α} {as : List α} :
    run step s (a :: as) = some t ↔ ∃ u, step s a = some u ∧ run step u as = some t := by
  simp [run, Option.bind_eq_some_iff]

theorem run_append_eq_some {s t : σ} {as bs : List α} :
    run step s (as ++ bs) = some t ↔ ∃ u, run step s as = some u ∧ run step u bs = some t := by
  induction as generalizing s with
  | nil => simp
  | cons a as ih =>
      simp only [List.cons_append, run_cons_eq_some, ih]
      constructor
      · rintro ⟨u, hstep, v, has, hbs⟩
        exact ⟨v, ⟨u, hstep, has⟩, hbs⟩
      · rintro ⟨v, ⟨u, hstep, has⟩, hbs⟩
        exact ⟨u, hstep, v, has, hbs⟩

theorem run_concat_eq_some {s t : σ} {as : List α} {a : α} :
    run step s (as ++ [a]) = some t ↔ ∃ u, run step s as = some u ∧ step u a = some t := by
  simp [run_append_eq_some, run_cons_eq_some]

/-- **The induction rule.** A property of a state and of the actions that led to it, true before the
first action and preserved by one more, holds at the end of every run. -/
theorem run_induction {P : List α → σ → Prop} {s t : σ} {as : List α} (hs : P [] s)
    (hstep : ∀ as t a u, run step s as = some t → P as t → step t a = some u → P (as ++ [a]) u)
    (hrun : run step s as = some t) : P as t := by
  induction as using List.reverseRecOn generalizing t with
  | nil =>
      rw [run_nil, Option.some.injEq] at hrun
      exact hrun ▸ hs
  | append_singleton as a ih =>
      obtain ⟨u, hu, hlast⟩ := run_concat_eq_some.mp hrun
      exact hstep as u a t hu (ih hu) hlast

/-- **The invariant rule.** What one step preserves holds at the end of every run. -/
theorem run_invariant {P : σ → Prop}
    (hstep : ∀ s a t, P s → step s a = some t → P t)
    {s t : σ} {as : List α} (hs : P s) (hrun : run step s as = some t) : P t :=
  run_induction (P := fun _ => P) hs (fun _ t a u _ ht hu => hstep t a u ht hu) hrun

theorem run_invariant_of_guarded {guard : σ → α → Prop} {P : σ → Prop}
    (hstep : ∀ s a t, P s → guard s a → step s a = some t → P t)
    {s t : σ} {as : List α} (hs : P s) (hguard : Guarded step guard s as)
    (hrun : run step s as = some t) : P t := by
  induction as generalizing s with
  | nil =>
      rw [run_nil, Option.some.injEq] at hrun
      exact hrun ▸ hs
  | cons a as ih =>
      obtain ⟨u, hu, htail⟩ := run_cons_eq_some.mp hrun
      exact ih (hstep s a u hs hguard.1 hu) (hguard.2 u hu) htail

theorem run_rel {R : σ → σ → Prop} (hrefl : ∀ s, R s s)
    (htrans : ∀ s t u, R s t → R t u → R s u)
    (hstep : ∀ s a t, step s a = some t → R s t)
    {s t : σ} {as : List α} (hrun : run step s as = some t) : R s t :=
  run_invariant (P := R s) (fun u a v hu huv => htrans s u v hu (hstep u a v huv)) (hrefl s) hrun

theorem guarded_of_forall {guard : σ → α → Prop} {as : List α} (h : ∀ a ∈ as, ∀ s, guard s a)
    (s : σ) :
    Guarded step guard s as := by
  induction as generalizing s with
  | nil => trivial
  | cons a as ih =>
      refine ⟨h a List.mem_cons_self s, ?_⟩
      intro t _
      exact ih (fun b hb => h b (List.mem_cons_of_mem a hb)) t

theorem Guarded.mono {guard guard' : σ → α → Prop} (hguard : ∀ s a, guard s a → guard' s a)
    {s : σ} {as : List α} (h : Guarded step guard s as) : Guarded step guard' s as := by
  induction as generalizing s with
  | nil => trivial
  | cons a as ih => exact ⟨hguard s a h.1, fun t ht => ih (h.2 t ht)⟩

theorem Guarded.and {guard guard' : σ → α → Prop} {s : σ} {as : List α}
    (h : Guarded step guard s as) (h' : Guarded step guard' s as) :
    Guarded step (fun s a => guard s a ∧ guard' s a) s as := by
  induction as generalizing s with
  | nil => trivial
  | cons a as ih => exact ⟨⟨h.1, h'.1⟩, fun t ht => ih (h.2 t ht) (h'.2 t ht)⟩

/-- **The simulation rule.** When every step is a step of an abstract machine, or none at all, every
run is a run of the abstract machine. -/
theorem run_simulates {σ' β : Type*} {step' : σ' → β → Option σ'} {abs : σ → σ'} {P : α → Prop}
    (hstep : ∀ s a t, P a → step s a = some t →
      abs t = abs s ∨ ∃ b, step' (abs s) b = some (abs t))
    {s t : σ} {as : List α} (hP : ∀ a ∈ as, P a) (hrun : run step s as = some t) :
    ∃ bs, run step' (abs s) bs = some (abs t) := by
  induction as generalizing s with
  | nil =>
      rw [run_nil, Option.some.injEq] at hrun
      exact ⟨[], by rw [run_nil, hrun]⟩
  | cons a as ih =>
      obtain ⟨u, hu, htail⟩ := run_cons_eq_some.mp hrun
      obtain ⟨bs, hbs⟩ := ih (fun b hb => hP b (List.mem_cons_of_mem a hb)) htail
      obtain heq | ⟨b, hb⟩ := hstep s a u (hP a List.mem_cons_self) hu
      · exact ⟨bs, heq ▸ hbs⟩
      · exact ⟨b :: bs, run_cons_eq_some.mpr ⟨abs u, hb, hbs⟩⟩

/-- The simulation rule with an invariant, where one step may be several steps of the abstract
machine. -/
theorem run_simulates_runs {σ' β : Type*} {step' : σ' → β → Option σ'} {abs : σ → σ'} {P : σ → Prop}
    (hstep : ∀ s a t, P s → step s a = some t →
      P t ∧ ∃ bs, run step' (abs s) bs = some (abs t))
    {s t : σ} {as : List α} (hs : P s) (hrun : run step s as = some t) :
    P t ∧ ∃ bs, run step' (abs s) bs = some (abs t) := by
  refine run_invariant (P := fun t => P t ∧ ∃ bs, run step' (abs s) bs = some (abs t))
    ?_ ⟨hs, [], rfl⟩ hrun
  rintro u a v ⟨hu, bs, hbs⟩ huv
  obtain ⟨hv, cs, hcs⟩ := hstep u a v hu huv
  exact ⟨hv, bs ++ cs, run_append_eq_some.mpr ⟨abs u, hbs, hcs⟩⟩

/-- The abstract steps of a run, when each step stands for a list of them. -/
def trace {β : Type*} (step : σ → α → Option σ) (steps : σ → α → List β) : σ → List α → List β
  | _, [] => []
  | s, a :: as => steps s a ++ (step s a).elim [] fun t => trace step steps t as

theorem trace_append {β : Type*} {steps : σ → α → List β} {s t : σ} {as : List α} (bs : List α)
    (hrun : run step s as = some t) :
    trace step steps s (as ++ bs) = trace step steps s as ++ trace step steps t bs := by
  induction as generalizing s with
  | nil =>
      obtain rfl := Option.some.inj hrun
      rfl
  | cons a as ih =>
      obtain ⟨u, hu, htail⟩ := run_cons_eq_some.mp hrun
      rw [List.cons_append, trace, trace, hu, List.append_assoc]
      exact congrArg (steps s a ++ ·) (ih htail)

theorem trace_concat {β : Type*} {steps : σ → α → List β} {s t : σ} {as : List α} (a : α)
    (hrun : run step s as = some t) :
    trace step steps s (as ++ [a]) = trace step steps s as ++ steps t a := by
  rw [trace_append [a] hrun]
  cases hstep : step t a <;> simp [trace, hstep]

theorem run_trace {σ' β : Type*} {step' : σ' → β → Option σ'} (abs : σ → σ')
    {steps : σ → α → List β}
    (hstep : ∀ s a t, step s a = some t → run step' (abs s) (steps s a) = some (abs t))
    {s t : σ} {as : List α} (hrun : run step s as = some t) :
    run step' (abs s) (trace step steps s as) = some (abs t) := by
  induction as generalizing s with
  | nil =>
      rw [run_nil, Option.some.injEq] at hrun
      rw [trace, run_nil, hrun]
  | cons a as ih =>
      obtain ⟨u, hu, htail⟩ := run_cons_eq_some.mp hrun
      rw [trace, hu]
      exact run_append_eq_some.mpr ⟨abs u, hstep s a u hu, ih htail⟩

theorem mem_trace {β : Type*} {steps : σ → α → List β} {s : σ} {as : List α} {b : β}
    (h : b ∈ trace step steps s as) :
    ∃ pre a post u, as = pre ++ a :: post ∧ run step s pre = some u ∧ b ∈ steps u a := by
  induction as generalizing s with
  | nil => simp [trace] at h
  | cons a as ih =>
      obtain h | h := List.mem_append.mp h
      · exact ⟨[], a, as, s, rfl, rfl, h⟩
      · cases hu : step s a with
        | none => simp [hu] at h
        | some u =>
            rw [hu] at h
            obtain ⟨pre, b, post, v, rfl, hpre, hb⟩ := ih h
            exact ⟨a :: pre, b, post, v, rfl, run_cons_eq_some.mpr ⟨u, hu, hpre⟩, hb⟩

theorem mem_trace_of_run {β : Type*} {steps : σ → α → List β} {s u : σ} {pre post : List α} {a : α}
    {b : β} (hpre : run step s pre = some u) (hb : b ∈ steps u a) :
    b ∈ trace step steps s (pre ++ a :: post) := by
  rw [trace_append _ hpre, trace]
  exact List.mem_append_right _ (List.mem_append_left _ hb)

theorem Guarded.append {guard : σ → α → Prop} {s : σ} {as bs : List α}
    (h : Guarded step guard s as) (h' : ∀ t ∈ run step s as, Guarded step guard t bs) :
    Guarded step guard s (as ++ bs) := by
  induction as generalizing s with
  | nil => exact h' s rfl
  | cons a as ih =>
      refine ⟨h.1, ?_⟩
      intro t ht
      refine ih (h.2 t ht) ?_
      intro u hu
      exact h' u (run_cons_eq_some.mpr ⟨t, ht, hu⟩)

/-- A property that a run acquires is acquired in one step of it. -/
theorem exists_step_of_run {P : σ → Prop} {s t : σ} {as : List α} (hs : ¬ P s) (ht : P t)
    (hrun : run step s as = some t) :
    ∃ pre a post u v, as = pre ++ a :: post ∧ run step s pre = some u ∧ ¬ P u
      ∧ step u a = some v ∧ P v ∧ run step v post = some t := by
  induction as generalizing s with
  | nil =>
      rw [run_nil, Option.some.injEq] at hrun
      exact absurd (hrun ▸ ht) hs
  | cons a as ih =>
      obtain ⟨u, hu, htail⟩ := run_cons_eq_some.mp hrun
      by_cases hPu : P u
      · exact ⟨[], a, as, s, u, rfl, rfl, hs, hu, hPu, htail⟩
      · obtain ⟨pre, b, post, v, w, rfl, hpre, hv, hstep, hw, hpost⟩ := ih hPu htail
        exact ⟨a :: pre, b, post, v, w, rfl, run_cons_eq_some.mpr ⟨u, hu, hpre⟩, hv, hstep, hw,
          hpost⟩

theorem exists_of_any_run {s : σ} {as : List α} {p : σ → Bool}
    (h : (run step s as).any p = true) : ∃ t, run step s as = some t ∧ p t = true := by
  obtain ⟨t, ht, hp⟩ := (Option.any_eq_true _ _).mp h
  exact ⟨t, ht, hp⟩

end Machine
