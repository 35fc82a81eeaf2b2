import StateSync.Rpc.Types
import Mathlib.Algebra.Field.Rat

/-!
# JSON as it is written, and as the library reads it

A line that is JSON is a `Json`: numbers of any size, strings with any escapes, members in the order
they stand in and as often as they do, nested to any depth. The values the code works with are what
the library makes of it. An integer beyond 64 bits and everything with a point or an exponent
becomes a float, of several members of one name the last is kept, and a number no float can hold,
half of a surrogate pair and too deep a nesting are errors.
-/

namespace StateSync

/-- The digits of a number, how many of them follow the point, and the exponent. -/
structure NumberLiteral where
  negative : Bool
  digits : Nat
  fraction : Option Nat
  exponent : Option Int
deriving DecidableEq, Repr

def NumberLiteral.value (literal : NumberLiteral) : ℚ :=
  (if literal.negative then -1 else 1) * literal.digits
    * 10 ^ (literal.exponent.getD 0 - literal.fraction.getD 0)

/-- A string denotes a text unless it escapes one half of a surrogate pair alone. -/
inductive Text
  | unicode (s : String)
  | surrogate (literal : String)
deriving DecidableEq, Repr

inductive Json
  | null
  | bool (b : Bool)
  | number (literal : NumberLiteral)
  | string (text : Text)
  | array (items : List Json)
  | object (members : List (Text × Json))

def Text.isUnicode : Text → Bool
  | .unicode _ => true
  | .surrogate _ => false

def Text.read : Text → Option String
  | .unicode s => some s
  | .surrogate _ => none

/-- `float` gives the number that is written for the float a literal becomes, unless that is too
large. A zero with a sign is a float as well. -/
def NumberLiteral.read (float : NumberLiteral → Option ℚ) (literal : NumberLiteral) :
    Option Number :=
  if literal.fraction = none ∧ literal.exponent = none then
    if literal.negative = false ∧ literal.digits < 2 ^ 64 then some (.posInt literal.digits)
    else if literal.negative = true ∧ 0 < literal.digits ∧ literal.digits ≤ 2 ^ 63 then
      some (.negInt (-literal.digits))
    else (float literal).map .float
  else (float literal).map .float

/-- An object has one member of each name, the last that was inserted. -/
def Value.ofMembers (members : List (String × Value)) : Value :=
  .object (members.foldl
    (fun kept member => member :: kept.filter fun other => other.1 ≠ member.1) [])

namespace Json

/-- Reading a value with at most `depth` arrays and objects inside each other. -/
def read (float : NumberLiteral → Option ℚ) : Nat → Json → Option Value
  | _, .null => some .null
  | _, .bool b => some (.bool b)
  | _, .number literal => (literal.read float).map .number
  | _, .string text => text.read.map .string
  | 0, .array _ => none
  | 0, .object _ => none
  | depth + 1, .array items => (items.mapM (read float depth)).map .array
  | depth + 1, .object members =>
      (members.mapM fun (member : Text × Json) => do
        let name ← member.1.read
        let v ← read float depth member.2
        some (name, v)).map .ofMembers

/-- What may be nested in a field of the request, which is itself the first of 127 levels. -/
def maxDepth : Nat := 126

def readValue (float : NumberLiteral → Option ℚ) (v : Json) : Option Value := v.read float maxDepth

/-- `Option<Value>` is `none` for a `null`. -/
def readOption (float : NumberLiteral → Option ℚ) : Json → Option (Option Value)
  | .null => some none
  | v => (v.readValue float).map some

def readString : Json → Option String
  | .string text => text.read
  | _ => none

/-- What the specification allows as an id. -/
def IsId : Json → Prop
  | .null | .number _ | .string _ => True
  | _ => False

/-- The value shows the id as it was written: the same text, or the same number. -/
def Shows (id : Json) (v : Value) : Prop :=
  match id, v with
  | .null, .null => True
  | .string text, .string s => text = .unicode s
  | .number literal, .number n => n.value = literal.value
  | _, _ => False

end Json

theorem Text.read_eq_some {text : Text} {s : String} : text.read = some s ↔ text = .unicode s := by
  cases text <;> simp [read]

theorem Json.readString_eq_some {v : Json} {s : String} :
    v.readString = some s ↔ v = .string (.unicode s) := by
  cases v <;> simp [readString, Text.read_eq_some]

@[simp]
theorem Json.readValue_number (float : NumberLiteral → Option ℚ) (literal : NumberLiteral) :
    (Json.number literal).readValue float = (literal.read float).map .number := by
  simp [readValue, read]

@[simp]
theorem Json.readValue_string (float : NumberLiteral → Option ℚ) (text : Text) :
    (Json.string text).readValue float = text.read.map .string := by
  simp [readValue, read]

theorem Json.readOption_eq_none {float : NumberLiteral → Option ℚ} {v : Json} :
    v.readOption float = some none ↔ v = .null := by
  cases v <;> simp [readOption]

/-- The number that is written for what the library reads is the one that was written. -/
def NumberLiteral.Exact (float : NumberLiteral → Option ℚ) (literal : NumberLiteral) : Prop :=
  ∃ n, literal.read float = some n ∧ n.value = literal.value

/-- **An integer of 64 bits is read exactly.** -/
theorem NumberLiteral.exact_integer (float : NumberLiteral → Option ℚ) {literal : NumberLiteral}
    (hfraction : literal.fraction = none) (hexponent : literal.exponent = none)
    (hrange : if literal.negative then 0 < literal.digits ∧ literal.digits ≤ 2 ^ 63
      else literal.digits < 2 ^ 64) : literal.Exact float := by
  cases hnegative : literal.negative with
  | false =>
      rw [hnegative, if_neg Bool.false_ne_true] at hrange
      refine ⟨.posInt literal.digits, ?_, ?_⟩
      · rw [read, if_pos ⟨hfraction, hexponent⟩, if_pos ⟨hnegative, hrange⟩]
      · simp [Number.value, value, hfraction, hexponent, hnegative]
  | true =>
      rw [hnegative, if_pos rfl] at hrange
      refine ⟨.negInt (-literal.digits), ?_, ?_⟩
      · rw [read, if_pos ⟨hfraction, hexponent⟩, if_neg (by simp [hnegative]),
          if_pos ⟨hnegative, hrange⟩]
      · simp [Number.value, value, hfraction, hexponent, hnegative]

end StateSync
