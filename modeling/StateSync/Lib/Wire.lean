import StateSync.Lib.Lines
import Mathlib.Algebra.Order.Group.Nat

/-!
# Byte formats

A format writes a value and reads one off the front of its input. It carries the two facts that
framing needs of it: what was written is read back, whatever follows, and of an input that ends
early nothing is read. Formats are put together with `andThen`, where what comes first tells how to
read the rest; lists and texts preceded by their length are an instance.
-/

namespace Wire

abbrev Bytes := List UInt8

structure Format (α : Type) where
  write : α → Option Bytes
  read : Bytes → Option (α × Bytes)
  read_write : ∀ a bytes rest, write a = some bytes → read (bytes ++ rest) = some (a, rest)
  read_cut : ∀ a front back, write a = some (front ++ back) → back ≠ [] → read front = none

/-- Cutting the end off two things written one after the other cuts the second, or the first. -/
theorem cut_append {front back first second : Bytes} (h : front ++ back = first ++ second) :
    (∃ rest, first = front ++ rest ∧ rest ≠ [])
      ∨ ∃ rest, front = first ++ rest ∧ second = rest ++ back := by
  obtain ⟨rest, hfirst, hsecond⟩ | ⟨rest, hfront, hsecond⟩ := List.append_eq_append_iff.mp h
  · by_cases hrest : rest = []
    · subst hrest
      exact Or.inr ⟨[], by simpa using hfirst.symm, by simpa using hsecond.symm⟩
    · exact Or.inl ⟨rest, hfirst, hrest⟩
  · exact Or.inr ⟨rest, hfront, hsecond⟩

namespace Format

variable {α β : Type}

/-- First the part of the value that `key` picks out, then the rest in a format that depends on
it. -/
def andThen (f : Format α) (g : α → Format β) (key : β → α) : Format β where
  write b := do
    let first ← f.write (key b)
    let second ← (g (key b)).write b
    some (first ++ second)
  read bytes := do
    let (a, rest) ← f.read bytes
    (g a).read rest
  read_write := by
    intro b bytes rest h
    simp only [Option.bind_eq_bind, Option.bind_eq_some_iff, Option.some.injEq] at h
    obtain ⟨first, hfirst, second, hsecond, rfl⟩ := h
    simp [f.read_write _ _ _ hfirst, (g (key b)).read_write _ _ _ hsecond]
  read_cut := by
    intro b front back h hback
    simp only [Option.bind_eq_bind, Option.bind_eq_some_iff, Option.some.injEq] at h
    obtain ⟨first, hfirst, second, hsecond, heq⟩ := h
    obtain ⟨rest, rfl, hrest⟩ | ⟨rest, rfl, rfl⟩ := cut_append heq.symm
    · simp [f.read_cut _ _ _ hfirst hrest]
    · simp [f.read_write _ _ _ hfirst, (g (key b)).read_cut _ _ _ hsecond hback]

/-- The format of a value that can be held in a value of another type. -/
def via (f : Format α) (into : α → Option β) (out : β → Option α)
    (hinto : ∀ b a, out b = some a → into a = some b) : Format β where
  write b := (out b).bind f.write
  read bytes := do
    let (a, rest) ← f.read bytes
    let b ← into a
    some (b, rest)
  read_write := by
    intro b bytes rest h
    obtain ⟨a, ha, h⟩ := Option.bind_eq_some_iff.mp h
    simp [f.read_write _ _ _ h, hinto b a ha]
  read_cut := by
    intro b front back h hback
    obtain ⟨a, _, h⟩ := Option.bind_eq_some_iff.mp h
    simp [f.read_cut _ _ _ h hback]

/-- The second of two values, when the first is known. -/
def after [DecidableEq α] (g : Format β) (a : α) : Format (α × β) where
  write pair := if pair.1 = a then g.write pair.2 else none
  read bytes := (g.read bytes).map fun result => ((a, result.1), result.2)
  read_write := by
    rintro ⟨a', b⟩ bytes rest h
    rw [Option.ite_none_right_eq_some] at h
    obtain ⟨rfl, h⟩ := h
    simp [g.read_write _ _ _ h]
  read_cut := by
    rintro ⟨a', b⟩ front back h hback
    rw [Option.ite_none_right_eq_some] at h
    simp [g.read_cut _ _ _ h.2 hback]

def pair [DecidableEq α] (f : Format α) (g : Format β) : Format (α × β) :=
  f.andThen g.after Prod.fst

theorem write_pair [DecidableEq α] {f : Format α} {g : Format β} {a : α} {b : β}
    {first second : Bytes} (hfirst : f.write a = some first) (hsecond : g.write b = some second) :
    (f.pair g).write (a, b) = some (first ++ second) := by
  simp [pair, andThen, after, hfirst, hsecond]

/-- A given number of bytes. -/
def chunk (n : Nat) : Format Bytes where
  write bytes := if bytes.length = n then some bytes else none
  read bytes := if n ≤ bytes.length then some (bytes.take n, bytes.drop n) else none
  read_write := by
    intro a bytes rest h
    obtain ⟨hlength, h⟩ := Option.ite_none_right_eq_some.mp h
    obtain rfl := Option.some.inj h
    subst hlength
    simp
  read_cut := by
    intro a front back h hback
    obtain ⟨hlength, h⟩ := Option.ite_none_right_eq_some.mp h
    obtain rfl := Option.some.inj h
    have hpos := List.length_pos_iff.mpr hback
    rw [List.length_append] at hlength
    rw [if_neg (by omega)]

/-! ### Numbers and texts -/

def toLeBytes : Nat → Nat → Bytes
  | 0, _ => []
  | width + 1, n => UInt8.ofNat n :: toLeBytes width (n / 256)

def fromLeBytes : Bytes → Nat
  | [] => 0
  | byte :: rest => byte.toNat + 256 * fromLeBytes rest

@[simp]
theorem length_toLeBytes (width n : Nat) : (toLeBytes width n).length = width := by
  induction width generalizing n with
  | zero => rfl
  | succ width ih => simp [toLeBytes, ih]

theorem fromLeBytes_toLeBytes {width n : Nat} (h : n < 256 ^ width) :
    fromLeBytes (toLeBytes width n) = n := by
  induction width generalizing n with
  | zero =>
      rw [pow_zero] at h
      simp only [toLeBytes, fromLeBytes]
      omega
  | succ width ih =>
      have hrest : n / 256 < 256 ^ width := by
        rw [pow_succ, mul_comm] at h
        exact Nat.div_lt_of_lt_mul h
      rw [toLeBytes, fromLeBytes, ih hrest, UInt8.toNat_ofNat']
      omega

/-- An unsigned number in little-endian order. -/
def uint (width : Nat) : Format Nat :=
  (chunk width).via (fun bytes => some (fromLeBytes bytes))
    (fun n => if n < 256 ^ width then some (toLeBytes width n) else none) (by
      intro n bytes h
      obtain ⟨hlt, h⟩ := Option.ite_none_right_eq_some.mp h
      obtain rfl := Option.some.inj h
      rw [fromLeBytes_toLeBytes hlt])

theorem write_uint {width n : Nat} (h : n < 256 ^ width) :
    (uint width).write n = some (toLeBytes width n) := by
  simp [uint, via, chunk, h]

def utf8 (n : Nat) : Format String :=
  (chunk n).via (fun bytes => (Lines.decode bytes).map String.ofList)
    (fun text => some (Lines.encode text.toList)) (by
      intro text bytes h
      obtain rfl := Option.some.inj h
      simp)

/-- The length in eight bytes, then the text. -/
def text : Format String :=
  (uint 8).andThen utf8 fun text => (Lines.encode text.toList).length

theorem write_text {s : String} (h : (Lines.encode s.toList).length < 256 ^ 8) :
    text.write s = some (toLeBytes 8 (Lines.encode s.toList).length ++ Lines.encode s.toList) := by
  simp [text, andThen, write_uint h, utf8, via, chunk]

/-! ### Lists -/

def nothing : Format (List α) :=
  (chunk 0).via (fun _ => some []) (fun values => if values.isEmpty then some [] else none) (by
    intro values bytes h
    obtain ⟨hempty, _⟩ := Option.ite_none_right_eq_some.mp h
    rw [List.isEmpty_iff.mp hempty])

/-- A given number of values. -/
def times [DecidableEq α] (f : Format α) : Nat → Format (List α)
  | 0 => nothing
  | n + 1 => (f.pair (f.times n)).via (fun values => some (values.1 :: values.2))
      (fun values => values.head?.map fun first => (first, values.tail)) (by
        intro values split h
        obtain ⟨first, hfirst, rfl⟩ := Option.map_eq_some_iff.mp h
        rw [List.cons_head?_tail hfirst])

/-- The number of values in eight bytes, then the values. -/
def seq [DecidableEq α] (f : Format α) : Format (List α) := (uint 8).andThen f.times List.length

theorem write_seq_singleton [DecidableEq α] {f : Format α} {a : α} {bytes : Bytes}
    (h : f.write a = some bytes) : f.seq.write [a] = some (toLeBytes 8 1 ++ bytes) := by
  have hrest : (nothing (α := α)).write [] = some [] := rfl
  have hpair := write_pair h hrest
  simp [seq, andThen, write_uint (show 1 < 256 ^ 8 by decide), times, via, hpair]

end Format

end Wire
