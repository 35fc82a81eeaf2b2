import Mathlib.Data.List.Induction
import Mathlib.Order.WithBot
import Mathlib.Order.Lattice
import Mathlib.Order.MinMax

/-!
# Keep-first maximum registers

A register holds the value with the greatest stamp it has been offered, and of several values with
that stamp the one offered first. Two offers with one stamp and different contents do not commute,
so the order that matters is not the order of stamps but `Behind`: to be the other value itself, or
to have a strictly smaller stamp. It is a partial order, every offer moves a register up in it, and
offering what is already behind changes nothing.
-/

namespace Register

variable {α σ : Type*} [LinearOrder σ] (stamp : α → σ)

/-- The greater of two values by stamp, the first when the stamps are equal. -/
def keepMax (a b : α) : α := if stamp b ≤ stamp a then a else b

/-- The stamp of a register, below every stamp while the register is empty. -/
def stampOf (o : Option α) : WithBot σ := o.map stamp

def offer : Option α → α → Option α
  | none, v => some v
  | some a, v => some (keepMax stamp a v)

/-- One register is the other, or has a strictly smaller stamp. -/
def Behind (o o' : Option α) : Prop := o = o' ∨ stampOf stamp o < stampOf stamp o'

variable {stamp}

omit [LinearOrder σ] in
@[simp]
theorem stampOf_none : stampOf stamp (none : Option α) = ⊥ := rfl

omit [LinearOrder σ] in
@[simp]
theorem stampOf_some (a : α) : stampOf stamp (some a) = (stamp a : WithBot σ) := rfl

theorem stampOf_offer (o : Option α) (v : α) :
    stampOf stamp (offer stamp o v) = max (stampOf stamp o) (stamp v) := by
  cases o with
  | none => simp [offer]
  | some a =>
      simp only [offer, keepMax, stampOf_some]
      split
      · rename_i hle
        exact (max_eq_left (WithBot.coe_le_coe.mpr hle)).symm
      · rename_i hlt
        exact (max_eq_right (WithBot.coe_le_coe.mpr (le_of_lt (not_le.mp hlt)))).symm

theorem offer_cases (stamp : α → σ) (o : Option α) (v : α) :
    (offer stamp o v = o ∧ (stamp v : WithBot σ) ≤ stampOf stamp o) ∨
      (offer stamp o v = some v ∧ stampOf stamp o < stamp v) := by
  cases o with
  | none => exact Or.inr ⟨rfl, WithBot.bot_lt_coe _⟩
  | some a =>
      by_cases hle : stamp v ≤ stamp a
      · exact Or.inl ⟨by simp [offer, keepMax, hle], WithBot.coe_le_coe.mpr hle⟩
      · exact Or.inr ⟨by simp [offer, keepMax, hle], WithBot.coe_lt_coe.mpr (not_le.mp hle)⟩

/-! ### Two values -/

theorem keepMax_self (a : α) : keepMax stamp a a = a := if_pos le_rfl

theorem keepMax_assoc (a b c : α) :
    keepMax stamp (keepMax stamp a b) c = keepMax stamp a (keepMax stamp b c) := by
  by_cases hba : stamp b ≤ stamp a
  · by_cases hcb : stamp c ≤ stamp b
    · simp [keepMax, hba, hcb, hcb.trans hba]
    · simp [keepMax, hba, hcb]
  · by_cases hcb : stamp c ≤ stamp b
    · simp [keepMax, hba, hcb]
    · have hca : ¬ stamp c ≤ stamp a :=
        not_le.mpr ((not_le.mp hba).trans (not_le.mp hcb))
      simp [keepMax, hba, hcb, hca]

/-- Two values commute unless they share a stamp and differ. -/
theorem keepMax_comm_iff {a b : α} :
    keepMax stamp a b = keepMax stamp b a ↔ (stamp a = stamp b → a = b) := by
  obtain hlt | heq | hgt := lt_trichotomy (stamp a) (stamp b)
  · simp [keepMax, hlt.le, not_le.mpr hlt, hlt.ne]
  · simp [keepMax, heq]
  · simp [keepMax, hgt.le, not_le.mpr hgt, hgt.ne']

/-! ### The order -/

namespace Behind

theorem refl (o : Option α) : Behind stamp o o := Or.inl rfl

theorem stamp_le {o o' : Option α} (h : Behind stamp o o') :
    stampOf stamp o ≤ stampOf stamp o' := by
  rcases h with rfl | hlt
  · exact le_rfl
  · exact hlt.le

theorem trans {o o' o'' : Option α} (h : Behind stamp o o') (h' : Behind stamp o' o'') :
    Behind stamp o o'' := by
  rcases h with rfl | hlt
  · exact h'
  · exact Or.inr (hlt.trans_le h'.stamp_le)

theorem eq_of_stamp_le {o o' : Option α} (h : Behind stamp o o')
    (hle : stampOf stamp o' ≤ stampOf stamp o) : o = o' :=
  h.resolve_right (not_lt.mpr hle)

theorem eq_none {o : Option α} (h : Behind stamp o none) : o = none := by
  cases o with
  | none => rfl
  | some a => exact absurd h.stamp_le (by simp)

end Behind

theorem behind_offer (o : Option α) (v : α) : Behind stamp o (offer stamp o v) := by
  rcases offer_cases stamp o v with ⟨heq, _⟩ | ⟨heq, hlt⟩
  · rw [heq]
    exact Behind.refl o
  · rw [heq]
    exact Or.inr hlt

theorem offer_of_stamp_le {o : Option α} {v : α} (hle : (stamp v : WithBot σ) ≤ stampOf stamp o) :
    offer stamp o v = o :=
  (offer_cases stamp o v).elim And.left fun h => absurd hle (not_le.mpr h.2)

theorem offer_of_behind {o : Option α} {v : α} (h : Behind stamp o (some v)) :
    offer stamp o v = some v := by
  rcases offer_cases stamp o v with ⟨heq, hle⟩ | ⟨heq, _⟩
  · rw [heq]
    exact h.eq_of_stamp_le hle
  · exact heq

/-! ### A list of offers -/

def offers (stamp : α → σ) (o : Option α) (vs : List α) : Option α := vs.foldl (offer stamp) o

@[simp]
theorem offers_nil (o : Option α) : offers stamp o [] = o := rfl

theorem offers_append (o : Option α) (vs ws : List α) :
    offers stamp o (vs ++ ws) = offers stamp (offers stamp o vs) ws :=
  List.foldl_append

@[simp]
theorem offers_cons (o : Option α) (v : α) (vs : List α) :
    offers stamp o (v :: vs) = offers stamp (offer stamp o v) vs := rfl

theorem behind_offers (o : Option α) (vs : List α) : Behind stamp o (offers stamp o vs) := by
  induction vs generalizing o with
  | nil => exact Behind.refl o
  | cons v vs ih => exact (behind_offer o v).trans (ih (offer stamp o v))

theorem stamp_le_offers (stamp : α → σ) (o : Option α) {vs : List α} {v : α} (hv : v ∈ vs) :
    (stamp v : WithBot σ) ≤ stampOf stamp (offers stamp o vs) := by
  induction vs generalizing o with
  | nil => exact absurd hv List.not_mem_nil
  | cons w vs ih =>
      rcases List.mem_cons.mp hv with rfl | hv
      · refine le_trans ?_ (behind_offers (offer stamp o v) vs).stamp_le
        rw [stampOf_offer]
        exact le_max_right _ _
      · exact ih (offer stamp o w) hv

/-- A list of offers leaves the register as it is, or one of them has a strictly greater stamp than
it had and is what the register holds at the end. -/
theorem offers_cases (stamp : α → σ) (o : Option α) (vs : List α) :
    offers stamp o vs = o ∨
      ∃ v ∈ vs, offers stamp o vs = some v ∧ stampOf stamp o < stamp v := by
  induction vs generalizing o with
  | nil => exact Or.inl rfl
  | cons v vs ih =>
      have hbehind : stampOf stamp o ≤ stampOf stamp (offer stamp o v) :=
        (behind_offer o v).stamp_le
      rcases ih (offer stamp o v) with hrest | ⟨w, hw, hrest, hlt⟩
      · rcases offer_cases stamp o v with ⟨heq, _⟩ | ⟨heq, hlt⟩
        · exact Or.inl (by rw [offers_cons, hrest, heq])
        · exact Or.inr ⟨v, List.mem_cons_self, by rw [offers_cons, hrest, heq], hlt⟩
      · exact Or.inr ⟨w, List.mem_cons_of_mem v hw, hrest, hbehind.trans_lt hlt⟩

theorem Behind.offers {o r : Option α} {vs : List α} (ho : Behind stamp o r)
    (hvs : ∀ v ∈ vs, Behind stamp (some v) r) : Behind stamp (offers stamp o vs) r := by
  rcases offers_cases stamp o vs with heq | ⟨v, hv, heq, _⟩
  · rw [heq]
    exact ho
  · rw [heq]
    exact hvs v hv

/-- A stamp is beyond a register when it is beyond everything the register was offered. -/
theorem stampOf_offers_lt_iff {o : Option α} {vs : List α} {s : WithBot σ} :
    stampOf stamp (offers stamp o vs) < s ↔
      stampOf stamp o < s ∧ ∀ v ∈ vs, (stamp v : WithBot σ) < s := by
  induction vs generalizing o with
  | nil => simp
  | cons v vs ih =>
      rw [offers_cons, ih, stampOf_offer, max_lt_iff, List.forall_mem_cons, and_assoc]

theorem offers_eq_none_iff {vs : List α} : offers stamp none vs = none ↔ vs = [] := by
  constructor
  · intro hnone
    rw [List.eq_nil_iff_forall_not_mem]
    intro v hv
    have hle := stamp_le_offers stamp none hv
    rw [hnone] at hle
    exact absurd hle (by simp)
  · rintro rfl
    rfl

theorem offers_of_forall_stamp_le {o : Option α} {vs : List α}
    (h : ∀ v ∈ vs, (stamp v : WithBot σ) ≤ stampOf stamp o) : offers stamp o vs = o := by
  rcases offers_cases stamp o vs with heq | ⟨v, hv, _, hlt⟩
  · exact heq
  · exact absurd (h v hv) (not_le.mpr hlt)

/-- Offering one value several times is offering it once. -/
theorem offers_of_forall_eq {o : Option α} {v : α} {vs : List α} (hv : v ∈ vs)
    (h : ∀ w ∈ vs, w = v) : offers stamp o vs = offer stamp o v := by
  cases vs with
  | nil => exact absurd hv List.not_mem_nil
  | cons w vs =>
      obtain rfl := h w List.mem_cons_self
      rw [offers_cons]
      apply offers_of_forall_stamp_le
      intro u hu
      rw [h u (List.mem_cons_of_mem w hu), stampOf_offer]
      exact le_max_right _ _

/-! ### The value a history selects -/

/-- The value is the earliest of those with the greatest stamp. -/
def FirstGreatest (stamp : α → σ) (vs : List α) (v : α) : Prop :=
  ∃ earlier later, vs = earlier ++ v :: later
    ∧ (∀ w ∈ earlier, stamp w < stamp v) ∧ ∀ w ∈ later, stamp w ≤ stamp v

theorem FirstGreatest.mem {vs : List α} {v : α} (h : FirstGreatest stamp vs v) : v ∈ vs := by
  obtain ⟨earlier, later, rfl, _⟩ := h
  exact List.mem_append_right earlier List.mem_cons_self

theorem FirstGreatest.offers_eq {vs : List α} {v : α} (h : FirstGreatest stamp vs v) :
    offers stamp none vs = some v := by
  obtain ⟨earlier, later, rfl, hearlier, hlater⟩ := h
  have hbehind : Behind stamp (offers stamp none earlier) (some v) := by
    apply Or.inr
    rw [stampOf_some, stampOf_offers_lt_iff]
    exact ⟨WithBot.bot_lt_coe _, fun w hw => WithBot.coe_lt_coe.mpr (hearlier w hw)⟩
  calc
    offers stamp none (earlier ++ v :: later)
        = offers stamp (offer stamp (offers stamp none earlier) v) later := by
      rw [offers_append, offers_cons]
    _ = offers stamp (some v) later := by rw [offer_of_behind hbehind]
    _ = some v := offers_of_forall_stamp_le fun w hw => WithBot.coe_le_coe.mpr (hlater w hw)

/-- **A register holds what its history selects.** -/
theorem offers_eq_some_iff {vs : List α} {v : α} :
    offers stamp none vs = some v ↔ FirstGreatest stamp vs v := by
  refine ⟨?_, FirstGreatest.offers_eq⟩
  induction vs using List.reverseRecOn with
  | nil => simp
  | append_singleton vs w ih =>
      intro h
      rw [offers_append, offers_cons, offers_nil] at h
      obtain ⟨heq, hle⟩ | ⟨heq, hlt⟩ := offer_cases stamp (offers stamp none vs) w
      · -- the last offer is turned down, and comes after what is held
        rw [heq] at h
        obtain ⟨earlier, later, rfl, hearlier, hlater⟩ := ih h
        refine ⟨earlier, later ++ [w], by simp, hearlier, ?_⟩
        rw [h, stampOf_some, WithBot.coe_le_coe] at hle
        simpa [or_imp, forall_and, hle] using hlater
      · obtain rfl : w = v := Option.some.inj (heq.symm.trans h)
        refine ⟨vs, [], rfl, ?_, by simp⟩
        exact fun u hu => WithBot.coe_lt_coe.mp ((stampOf_offers_lt_iff.mp hlt).2 u hu)

/-- What a history selects stands for the whole history, offered to any register. -/
theorem offers_selected (o : Option α) (vs : List α) :
    offers stamp o (offers stamp none vs).toList = offers stamp o vs := by
  cases hselected : offers stamp none vs with
  | none =>
      rw [offers_eq_none_iff.mp hselected]
      rfl
  | some v =>
      obtain ⟨earlier, later, rfl, hearlier, hlater⟩ := offers_eq_some_iff.mp hselected
      obtain hle | hlt := le_or_gt (stamp v : WithBot σ) (stampOf stamp o)
      · have hall : ∀ w ∈ earlier ++ v :: later, (stamp w : WithBot σ) ≤ stampOf stamp o := by
          intro w hw
          refine le_trans (WithBot.coe_le_coe.mpr ?_) hle
          obtain hw | hw := List.mem_append.mp hw
          · exact (hearlier w hw).le
          · obtain rfl | hw := List.mem_cons.mp hw
            · exact le_rfl
            · exact hlater w hw
        calc
          offers stamp o [v] = o := offer_of_stamp_le hle
          _ = offers stamp o (earlier ++ v :: later) := (offers_of_forall_stamp_le hall).symm
      · have hbehind : Behind stamp (offers stamp o earlier) (some v) := by
          apply Or.inr
          rw [stampOf_some, stampOf_offers_lt_iff]
          exact ⟨hlt, fun w hw => WithBot.coe_lt_coe.mpr (hearlier w hw)⟩
        calc
          offers stamp o [v] = some v := offer_of_behind (Or.inr hlt)
          _ = offers stamp (some v) later :=
            (offers_of_forall_stamp_le fun w hw => WithBot.coe_le_coe.mpr (hlater w hw)).symm
          _ = offers stamp (offer stamp (offers stamp o earlier) v) later := by
            rw [offer_of_behind hbehind]
          _ = offers stamp o (earlier ++ v :: later) := by rw [offers_append, offers_cons]

end Register
