import StateSync.Lib.Register
import Mathlib.Data.Prod.Lex
import Mathlib.Data.String.Basic

/-!
# The register every key holds

`LwwValue::merge` picks the greater timestamp, then the greater node id, and its first argument when
both are equal. The value itself is never compared. In the terms of `Register` it is the keep-first
maximum by the stamp `(timestamp, nodeId)`, ordered lexicographically.
-/

namespace StateSync

/-- A last-write-wins register: the value, the microseconds since the UNIX epoch at which it was
written, and the node that wrote it. -/
structure LwwValue where
  value : String
  timestamp : Nat
  nodeId : String
deriving DecidableEq, Repr

namespace LwwValue

def new (value nodeId : String) (now : Nat) : LwwValue :=
  { value := value, timestamp := now, nodeId := nodeId }

def merge (a b : LwwValue) : LwwValue :=
  match compare a.timestamp b.timestamp with
  | .gt => a
  | .lt => b
  -- the timestamps collide: the greater node id, and the first argument when these are equal too
  | .eq => if a.nodeId ≥ b.nodeId then a else b

/-- What `merge` compares. -/
def stamp (v : LwwValue) : ℕ ×ₗ String := toLex (v.timestamp, v.nodeId)

theorem stamp_le_iff {a b : LwwValue} :
    a.stamp ≤ b.stamp ↔
      a.timestamp < b.timestamp ∨ a.timestamp = b.timestamp ∧ a.nodeId ≤ b.nodeId :=
  Prod.Lex.le_iff

theorem stamp_lt_iff {a b : LwwValue} :
    a.stamp < b.stamp ↔
      a.timestamp < b.timestamp ∨ a.timestamp = b.timestamp ∧ a.nodeId < b.nodeId :=
  Prod.Lex.lt_iff

theorem stamp_eq_iff {a b : LwwValue} :
    a.stamp = b.stamp ↔ a.timestamp = b.timestamp ∧ a.nodeId = b.nodeId := by
  simp [stamp]

theorem timestamp_le_of_stamp_le {a b : LwwValue} (h : a.stamp ≤ b.stamp) :
    a.timestamp ≤ b.timestamp := by
  rcases stamp_le_iff.mp h with hlt | ⟨heq, _⟩
  · exact hlt.le
  · exact heq.le

/-- **`merge` is the keep-first maximum by stamp.** -/
theorem merge_eq_keepMax (a b : LwwValue) : merge a b = Register.keepMax stamp a b := by
  unfold merge Register.keepMax
  rcases lt_trichotomy a.timestamp b.timestamp with hlt | heq | hgt
  · have hnot : ¬ b.stamp ≤ a.stamp := by
      rw [stamp_le_iff]
      omega
    simp [Nat.compare_eq_lt.mpr hlt, hnot]
  · simp [stamp_le_iff, heq]
  · have hle : b.stamp ≤ a.stamp := stamp_le_iff.mpr (Or.inl hgt)
    simp [Nat.compare_eq_gt.mpr hgt, hle]

theorem merge_self (a : LwwValue) : merge a a = a := by
  rw [merge_eq_keepMax, Register.keepMax_self]

theorem merge_assoc (a b c : LwwValue) : merge (merge a b) c = merge a (merge b c) := by
  simp only [merge_eq_keepMax, Register.keepMax_assoc]

theorem eq_iff_of_stamp_eq {a b : LwwValue} (h : a.stamp = b.stamp) :
    a = b ↔ a.value = b.value := by
  obtain ⟨hts, hid⟩ := stamp_eq_iff.mp h
  cases a
  cases b
  simp_all

theorem merge_comm_iff {a b : LwwValue} :
    merge a b = merge b a ↔
      (a.timestamp = b.timestamp → a.nodeId = b.nodeId → a.value = b.value) := by
  rw [merge_eq_keepMax, merge_eq_keepMax, Register.keepMax_comm_iff, ← and_imp, ← stamp_eq_iff]
  exact forall_congr' fun hstamp => eq_iff_of_stamp_eq hstamp

/-- **The laws of `merge`.** It is associative and idempotent, and commutes for two values unless
they carry one timestamp and one node id and differ. -/
theorem merge_laws_iff (a b c : LwwValue) :
    (merge a b = merge b a ∧ merge (merge a b) c = merge a (merge b c) ∧ merge a a = a)
      ↔ (a.timestamp = b.timestamp → a.nodeId = b.nodeId → a.value = b.value) := by
  rw [merge_comm_iff]
  exact and_iff_left ⟨merge_assoc a b c, merge_self a⟩

theorem merge_not_comm :
    ¬ (∀ a b c : LwwValue,
      merge a b = merge b a ∧ merge (merge a b) c = merge a (merge b c) ∧ merge a a = a) := by
  intro h
  have hcomm := (h ⟨"x", 1, "node-a"⟩ ⟨"y", 1, "node-a"⟩ ⟨"x", 1, "node-a"⟩).1
  exact absurd hcomm (by decide)

end LwwValue

end StateSync
