import StateSync.Rpc.Json

/-!
# Deserializing a request

What the derived `Deserialize` of `RpcRequest` makes of a line that is JSON. The text itself is the
work of the JSON library, which is a parameter: `parse` tells what a line is the JSON of, `float`
which number a literal becomes that is no integer of 64 bits, and `fromStr` is the call the handler
makes. Of a member that is no field only the name is read; a value is read where the request needs
it.
-/

namespace StateSync

/-- The fields of `RpcRequest` met so far. -/
structure RpcRequest.Fields where
  jsonrpc : Option String
  method : Option String
  params : Option Value
  id : Option (Option Value)

namespace RpcRequest

/-- A field that was met before is an error, and so is a value that cannot be read as its type. -/
def visitField {α : Type} (slot : Option α) (read : Json → Option α) (v : Json) : Option α :=
  if slot.isSome then none else read v

/-- One turn of `visit_map`. Members that are no field are ignored. -/
def visitMember (float : NumberLiteral → Option ℚ) (fields : Fields) (member : Text × Json) :
    Option Fields :=
  match member.1 with
  | .surrogate _ => none
  | .unicode "jsonrpc" => (visitField fields.jsonrpc Json.readString member.2).map fun s =>
      { fields with jsonrpc := some s }
  | .unicode "method" => (visitField fields.method Json.readString member.2).map fun s =>
      { fields with method := some s }
  | .unicode "params" => (visitField fields.params (Json.readValue float) member.2).map fun v =>
      { fields with params := some v }
  | .unicode "id" => (visitField fields.id (Json.readOption float) member.2).map fun id =>
      { fields with id := some id }
  | .unicode _ => some fields

/-- `params` has a default, and a missing `id` is that of an `Option`. -/
def visitMap (float : NumberLiteral → Option ℚ) (members : List (Text × Json)) :
    Option RpcRequest := do
  let fields ← members.foldlM (visitMember float) ⟨none, none, none, none⟩
  let jsonrpc ← fields.jsonrpc
  let method ← fields.method
  some { jsonrpc := jsonrpc, method := method, params := fields.params.getD .null,
         id := fields.id.getD none }

/-- A struct is also accepted as the array of its fields. -/
def visitSeq (float : NumberLiteral → Option ℚ) : List Json → Option RpcRequest
  | [jsonrpc, method, params, id] => do
      let jsonrpc ← jsonrpc.readString
      let method ← method.readString
      let params ← params.readValue float
      let id ← id.readOption float
      some { jsonrpc := jsonrpc, method := method, params := params, id := id }
  | _ => none

def deserialize (float : NumberLiteral → Option ℚ) : Json → Option RpcRequest
  | .object members => visitMap float members
  | .array items => visitSeq float items
  | _ => none

end RpcRequest

structure SerdeJson where
  parse : String → Option Json
  float : NumberLiteral → Option ℚ
  fromStr : String → Except String RpcRequest

/-- `from_str` fails on a text that is not JSON, and on JSON that is no request it can read. -/
def SerdeJson.Lawful (serde : SerdeJson) : Prop :=
  ∀ line req, serde.fromStr line = .ok req ↔
    ∃ json, serde.parse line = some json ∧ RpcRequest.deserialize serde.float json = some req

/-! ### What an object has to be -/

/-- The member of an object with this name, the first one. -/
def fieldOf (members : List (Text × Json)) (field : String) : Option Json :=
  members.lookup (.unicode field)

namespace RpcRequest

/-- How often the field is a member. -/
def occurrences (members : List (Text × Json)) (field : String) : Nat :=
  members.countP fun member => member.1 = .unicode field

theorem occurrences_cons_self (v : Json) (members : List (Text × Json)) (field : String) :
    occurrences ((.unicode field, v) :: members) field = occurrences members field + 1 := by
  simp [occurrences]

theorem occurrences_cons_of_ne {member : Text × Json} {field : String}
    (hne : member.1 ≠ .unicode field) (members : List (Text × Json)) :
    occurrences (member :: members) field = occurrences members field := by
  simp [occurrences, hne]

/-- What the members do to one field. -/
def readField {α : Type} (field : String) (read : Json → Option α) (slot : Option α)
    (members : List (Text × Json)) : Option (Option α) :=
  members.foldlM (fun slot member =>
    if member.1 = .unicode field then (visitField slot read member.2).map some else some slot) slot

@[simp]
theorem readField_cons_self {α : Type} (field : String) (read : Json → Option α)
    (slot : Option α) (v : Json) (members : List (Text × Json)) :
    readField field read slot ((.unicode field, v) :: members)
      = (visitField slot read v).bind fun a => readField field read (some a) members := by
  simp only [readField, List.foldlM_cons, if_true]
  cases visitField slot read v <;> rfl

@[simp]
theorem readField_cons_of_ne {α : Type} {field : String} {read : Json → Option α}
    {slot : Option α} {member : Text × Json} (hne : member.1 ≠ .unicode field)
    (members : List (Text × Json)) :
    readField field read slot (member :: members) = readField field read slot members := by
  simp [readField, hne]

/-- Each member concerns one field only, and its name has to be a text. -/
theorem foldlM_visitMember (float : NumberLiteral → Option ℚ) (members : List (Text × Json))
    (fields : Fields) :
    members.foldlM (visitMember float) fields
      = if ∀ member ∈ members, member.1.isUnicode = true then (do
          let jsonrpc ← readField "jsonrpc" Json.readString fields.jsonrpc members
          let method ← readField "method" Json.readString fields.method members
          let params ← readField "params" (Json.readValue float) fields.params members
          let id ← readField "id" (Json.readOption float) fields.id members
          some ⟨jsonrpc, method, params, id⟩)
        else none := by
  induction members generalizing fields with
  | nil => rw [if_pos (by simp)]; rfl
  | cons member members ih =>
      obtain ⟨name | literal, v⟩ := member
      · have hnames : (∀ member ∈ (Text.unicode name, v) :: members, member.1.isUnicode = true)
            ↔ ∀ member ∈ members, member.1.isUnicode = true := by simp [Text.isUnicode]
        simp only [hnames, List.foldlM_cons]
        by_cases hjsonrpc : name = "jsonrpc"
        · subst hjsonrpc
          cases hread : visitField fields.jsonrpc Json.readString v <;>
            simp [visitMember, hread, ih]
        by_cases hmethod : name = "method"
        · subst hmethod
          cases hread : visitField fields.method Json.readString v <;>
            simp [visitMember, hread, ih]
        by_cases hparams : name = "params"
        · subst hparams
          cases hread : visitField fields.params (Json.readValue float) v <;>
            simp [visitMember, hread, ih]
        by_cases hid : name = "id"
        · subst hid
          cases hread : visitField fields.id (Json.readOption float) v <;>
            simp [visitMember, hread, ih]
        simp [visitMember, *]
      · simp [visitMember, Text.isUnicode]

theorem readField_some {α : Type} {field : String} {read : Json → Option α} {a : α}
    {slot : Option α} (members : List (Text × Json)) :
    readField field read (some a) members = some slot
      ↔ occurrences members field = 0 ∧ slot = some a := by
  induction members with
  | nil => simp [readField, occurrences, eq_comm]
  | cons member members ih =>
      obtain ⟨name, v⟩ := member
      by_cases hname : name = .unicode field
      · subst hname
        simp [readField_cons_self, occurrences_cons_self, visitField]
      · rw [readField_cons_of_ne hname, occurrences_cons_of_ne hname, ih]

theorem readField_none {α : Type} {field : String} {read : Json → Option α} {slot : Option α}
    (members : List (Text × Json)) :
    readField field read none members = some slot
      ↔ occurrences members field ≤ 1 ∧ (fieldOf members field).map read = slot.map some := by
  induction members with
  | nil => cases slot <;> simp [readField, occurrences, fieldOf]
  | cons member members ih =>
      obtain ⟨name, v⟩ := member
      by_cases hname : name = .unicode field
      · subst hname
        rw [readField_cons_self, occurrences_cons_self, fieldOf, List.lookup_cons_self]
        simp only [visitField, Option.isSome_none, Bool.false_eq_true, if_false,
          Option.bind_eq_some_iff, readField_some]
        constructor
        · rintro ⟨a, ha, hzero, rfl⟩
          exact ⟨by omega, by simp [ha]⟩
        · rintro ⟨hle, hread⟩
          obtain ⟨a, rfl, ha⟩ := Option.map_eq_some_iff.mp hread.symm
          exact ⟨a, ha.symm, by omega, rfl⟩
      · have hlookup : fieldOf ((name, v) :: members) field = fieldOf members field := by
          simp [fieldOf, List.lookup_cons, beq_eq_false_iff_ne.mpr (Ne.symm hname)]
        rw [readField_cons_of_ne hname, occurrences_cons_of_ne hname, hlookup, ih]

/-- The parameters of a request, as the library reads them. -/
def readParams (float : NumberLiteral → Option ℚ) (members : List (Text × Json)) : Option Value :=
  (fieldOf members "params").elim (some .null) (Json.readValue float)

def readId (float : NumberLiteral → Option ℚ) (members : List (Text × Json)) :
    Option (Option Value) :=
  (fieldOf members "id").elim (some none) (Json.readOption float)

/-- The request an object of these members is: names that are texts, no field twice, the two
strings, and the rest as it is read or its default. -/
structure OfMembers (float : NumberLiteral → Option ℚ) (members : List (Text × Json))
    (req : RpcRequest) : Prop where
  names : ∀ member ∈ members, member.1.isUnicode = true
  once : ∀ field ∈ ["jsonrpc", "method", "params", "id"], occurrences members field ≤ 1
  jsonrpc : fieldOf members "jsonrpc" = some (.string (.unicode req.jsonrpc))
  method : fieldOf members "method" = some (.string (.unicode req.method))
  params : readParams float members = some req.params
  id : readId float members = some req.id

/-- **What deserializes.** -/
theorem visitMap_eq_some {float : NumberLiteral → Option ℚ} {members : List (Text × Json)}
    {req : RpcRequest} : visitMap float members = some req ↔ OfMembers float members req := by
  have hstring {field s : String} :
      (fieldOf members field).map Json.readString = (some s).map some
        ↔ fieldOf members field = some (.string (.unicode s)) := by
    simp [Option.map_eq_some_iff, Json.readString_eq_some]
  have hdefault {α : Type} {field : String} {read : Json → Option α} {d a : α} :
      (∃ slot : Option α, (fieldOf members field).map read = slot.map some ∧ slot.getD d = a)
        ↔ (fieldOf members field).elim (some d) read = some a := by
    cases fieldOf members field with
    | none => simp
    | some v => cases hread : read v <;> simp [eq_comm]
  simp only [visitMap, foldlM_visitMember, Option.bind_eq_bind, Option.bind_eq_some_iff,
    Option.ite_none_right_eq_some, readField_none]
  constructor
  · rintro ⟨fields, ⟨hnames, jsonrpc, ⟨hj, hjsonrpc⟩, method, ⟨hm, hmethod⟩, params,
      ⟨hp, hparams⟩, id, ⟨hi, hid⟩, hfields⟩, s, hs, t, ht, hreq⟩
    obtain rfl := Option.some.inj hfields
    obtain rfl := Option.some.inj hreq
    simp only at hs ht
    subst hs ht
    exact
      { names := hnames
        once := by simp [hj, hm, hp, hi]
        jsonrpc := hstring.mp hjsonrpc
        method := hstring.mp hmethod
        params := hdefault.mp ⟨params, hparams, rfl⟩
        id := hdefault.mp ⟨id, hid, rfl⟩ }
  · intro h
    have hfields := h.once
    simp only [List.forall_mem_cons, List.not_mem_nil, false_imp_iff, implies_true,
      and_true] at hfields
    obtain ⟨hj, hm, hp, hi⟩ := hfields
    obtain ⟨params, hparams, hparams'⟩ := hdefault.mpr h.params
    obtain ⟨id, hid, hid'⟩ := hdefault.mpr h.id
    refine ⟨_, ⟨h.names, some req.jsonrpc, ⟨hj, hstring.mpr h.jsonrpc⟩, some req.method,
      ⟨hm, hstring.mpr h.method⟩, params, ⟨hp, hparams⟩, id, ⟨hi, hid⟩, rfl⟩, _, rfl, _, rfl, ?_⟩
    rw [hparams', hid']

end RpcRequest

end StateSync
