import Mathlib.Data.Fintype.Card
import Mathlib.Data.List.Basic
import Mathlib.Logic.Function.Basic

/-!
# Lists of slots

A list that is only ever extended at its end or overwritten at one position, so that an index names
the same slot for ever. What such an update does to membership and to the concatenation of a list
kept in each slot.
-/

namespace Slots

variable {α β : Type*} {l : List α} {a b : α} {x : Nat}

theorem getElem?_concat_cases (h : (l ++ [a])[x]? = some b) :
    l[x]? = some b ∨ (x = l.length ∧ b = a) := by
  rw [List.getElem?_append] at h
  split at h
  · exact Or.inl h
  · rename_i hge
    rw [List.getElem?_singleton] at h
    split at h
    · exact Or.inr ⟨by omega, (Option.some.inj h).symm⟩
    · simp at h

theorem map_getElem?_concat (f : α → β) (l : List α) (a : α) :
    (fun x => (l ++ [a])[x]?.map f)
      = Function.update (fun x => l[x]?.map f) l.length (some (f a)) := by
  funext x
  by_cases hx : x = l.length
  · subst hx
    simp
  · rw [Function.update_of_ne hx]
    obtain hlt | hge := lt_or_ge x l.length
    · rw [List.getElem?_append_left hlt]
    · rw [List.getElem?_eq_none hge, List.getElem?_eq_none]
      rw [List.length_append, List.length_singleton]
      omega

theorem map_getElem?_set (f : α → β) (hx : l[x]? = some a) (b : α) :
    (fun y => (l.set x b)[y]?.map f)
      = Function.update (fun y => l[y]?.map f) x (some (f b)) := by
  obtain ⟨hlt, _⟩ := List.getElem?_eq_some_iff.mp hx
  funext y
  by_cases hy : y = x
  · subst hy
    rw [Function.update_self, List.getElem?_set_self hlt, Option.map_some]
  · rw [Function.update_of_ne hy, List.getElem?_set_ne (Ne.symm hy)]

theorem of_set {P : α → Prop} (hx : l[x]? = some a) (hkeep : P b → P a) {y : Nat} {t : α}
    (hy : (l.set x b)[y]? = some t) (ht : P t) : ∃ s, l[y]? = some s ∧ P s := by
  by_cases hxy : x = y
  · subst hxy
    obtain ⟨hlt, _⟩ := List.getElem?_eq_some_iff.mp hx
    rw [List.getElem?_set_self hlt, Option.some.injEq] at hy
    subst hy
    exact ⟨a, hx, hkeep ht⟩
  · rw [List.getElem?_set_ne hxy] at hy
    exact ⟨t, hy, ht⟩

theorem mem_set_or_eq (b : α) (hx : l[x]? = some a) {t : α} (ht : t ∈ l) :
    t ∈ l.set x b ∨ t = a := by
  obtain ⟨y, hy⟩ := List.mem_iff_getElem?.mp ht
  by_cases hxy : x = y
  · subst hxy
    rw [hy, Option.some.injEq] at hx
    exact Or.inr hx
  · exact Or.inl (List.mem_iff_getElem?.mpr ⟨y, by rw [List.getElem?_set_ne hxy, hy]⟩)

theorem mem_set_self (b : α) (hx : l[x]? = some a) : b ∈ l.set x b := by
  obtain ⟨hlt, _⟩ := List.getElem?_eq_some_iff.mp hx
  exact List.mem_iff_getElem?.mpr ⟨x, List.getElem?_set_self hlt⟩

/-- Overwriting a slot with something that keeps what the old slot kept, and possibly more. -/
theorem mem_flatMap_set {g : α → List β} (hx : l[x]? = some a) (hg : g a ⊆ g b) {e : β} :
    e ∈ (l.set x b).flatMap g ↔ e ∈ l.flatMap g ∨ e ∈ g b := by
  simp only [List.mem_flatMap]
  constructor
  · rintro ⟨t, ht, he⟩
    obtain ht | rfl := List.mem_or_eq_of_mem_set ht
    · exact Or.inl ⟨t, ht, he⟩
    · exact Or.inr he
  · rintro (⟨t, ht, he⟩ | he)
    · obtain ht | rfl := mem_set_or_eq b hx ht
      · exact ⟨t, ht, he⟩
      · exact ⟨b, mem_set_self b hx, hg he⟩
    · exact ⟨b, mem_set_self b hx, he⟩

theorem flatMap_set {g : α → List β} (hx : l[x]? = some a) (hg : g b = g a) :
    (l.set x b).flatMap g = l.flatMap g := by
  obtain ⟨hlt, rfl⟩ := List.getElem?_eq_some_iff.mp hx
  have hmap : (l.map g).set x (g l[x]) = l.map g := by
    rw [← List.getElem_map g (h := by simpa using hlt)]
    exact List.set_getElem_self _
  rw [List.flatMap_def, List.flatMap_def, List.map_set, hg, hmap]

/-- Slots in the order they were filled, of which every `r`-th holds more than the one before and is
among the values `T`: every run of `r` slots uses up one value, but for the first. -/
theorem card_le_of_lag {α : Type*} [Preorder α] {k r : ℕ} {T : Finset α} {f : Fin k → α}
    (h : ∀ i j : Fin k, (i : ℕ) + r ≤ j → f i < f j ∧ f j ∈ T) : k ≤ r * (T.card + 1) := by
  by_contra hlt
  rw [not_le] at hlt
  have hbound (i : Fin (T.card + 1)) : r * (i + 1) < k :=
    (Nat.mul_le_mul_left r (Nat.succ_le_of_lt i.isLt)).trans_lt hlt
  have hmem (i : Fin (T.card + 1)) : f ⟨r * (i + 1), hbound i⟩ ∈ T :=
    (h ⟨0, Nat.zero_lt_of_lt (hbound i)⟩ _ (by simp [Nat.mul_succ])).2
  have hmono : StrictMono fun i : Fin (T.card + 1) => f ⟨r * (i + 1), hbound i⟩ := by
    intro i j hij
    refine (h _ _ ?_).1
    calc r * (i + 1) + r = r * (i + 1 + 1) := (Nat.mul_succ _ _).symm
      _ ≤ r * (j + 1) := Nat.mul_le_mul_left r (Nat.succ_le_succ hij)
  have hcard := Finset.card_le_card_of_injOn (s := Finset.univ) (t := T) _ (fun i _ => hmem i)
    hmono.injective.injOn
  rw [Finset.card_univ, Fintype.card_fin] at hcard
  omega

end Slots
