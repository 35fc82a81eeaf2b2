import StateSync.Proof.Dispatch

/-!
# Responses and error codes

JSON-RPC asks for one response to every request that has an `id` member, whatever its value, for
none to a notification, and for an error code that tells what was wrong with the line. The handler
tells a missing `id` from a `null` no longer, answers a subscription before it asks, reads the
version without looking at it and has one code for everything that does not deserialize, be it no
JSON, no request, or JSON beyond the limits of the library. The two theorems here say exactly for
which lines it does what the specification asks.
-/

namespace StateSync

open Lines

/-- What the specification asks for a request with this `id` member. -/
def Disciplined (id : Option Json) (replies : List Outgoing) : Prop :=
  match id with
  | none => replies = []
  | some id => ∃ reply v, replies = [reply] ∧ reply.id = some v ∧ id.Shows v

/-- A request object: the version and the method are there. -/
def ValidRequest : Json → Prop
  | .object members => fieldOf members "jsonrpc" = some (.string (.unicode "2.0"))
      ∧ ∃ method, fieldOf members "method" = some (.string method)
  | _ => False

def Text.Supported (method : Text) : Prop := ∃ name ∈ supportedMethods, method = .unicode name

/-- The library can read what a request is made of: the names of the members, the method, the
parameters and the id. -/
def RpcRequest.Readable (float : NumberLiteral → Option ℚ) (members : List (Text × Json)) : Prop :=
  (∀ member ∈ members, member.1.isUnicode = true)
    ∧ (∀ method, fieldOf members "method" = some (.string method) → method.isUnicode = true)
    ∧ (RpcRequest.readParams float members).isSome ∧ (RpcRequest.readId float members).isSome

def DispatchResult.Errs (result : DispatchResult) (code : Int) : Prop :=
  ∃ reply, result.replies = [reply] ∧ reply.code = some code

/-- The answer to a line, in the classes the specification has for lines. Which parameters are
missing is asked of the parameters as they are read. -/
structure Classified (serde : SerdeJson) (line : String) (result : DispatchResult) : Prop where
  parseError : result.Errs ErrorCodes.parseError ↔ serde.parse line = none
  invalidRequest : result.Errs ErrorCodes.invalidRequest ↔
    ∃ json, serde.parse line = some json ∧ ¬ ValidRequest json
  methodNotFound : ∀ members method id, serde.parse line = some (.object members) →
    ValidRequest (.object members) → fieldOf members "method" = some (.string method) →
    fieldOf members "id" = some id →
      (result.Errs ErrorCodes.methodNotFound ↔ ¬ method.Supported)
  invalidParams : ∀ members method id params, serde.parse line = some (.object members) →
    ValidRequest (.object members) →
    fieldOf members "method" = some (.string (.unicode method)) →
    fieldOf members "id" = some id → RpcRequest.readParams serde.float members = some params →
      (result.Errs ErrorCodes.invalidParams ↔ MissingParam method params)
  result : ∀ members method id params, serde.parse line = some (.object members) →
    ValidRequest (.object members) →
    fieldOf members "method" = some (.string (.unicode method)) →
    fieldOf members "id" = some id → RpcRequest.readParams serde.float members = some params →
    method ∈ supportedMethods → ¬ MissingParam method params →
      ∃ response, result.replies = [.response response]

/-! ### Some lines -/

/-- A long integer is kept with its first digits, and `1e400` is too large. -/
def sampleFloat (literal : NumberLiteral) : Option ℚ :=
  if literal.exponent = some 400 then none
  else some ((literal.digits + 500000) / 1000000 * 1000000 : Nat)

/-- A JSON library that knows these lines. -/
def SerdeJson.ofTable (table : List (String × Json)) : SerdeJson where
  parse line := table.lookup line
  float := sampleFloat
  fromStr line := match (table.lookup line).bind (RpcRequest.deserialize sampleFloat) with
    | some req => .ok req
    | none => .error "missing field"

theorem SerdeJson.lawful_ofTable (table : List (String × Json)) :
    (SerdeJson.ofTable table).Lawful := by
  intro line req
  simp only [SerdeJson.ofTable]
  rw [← Option.bind_eq_some_iff]
  cases (table.lookup line).bind (RpcRequest.deserialize sampleFloat) <;> simp

def namelessSubscribe : String := "\x7b\"jsonrpc\":\"2.0\",\"method\":\"state.subscribe\"\x7d"

def nullIdKeys : String := "\x7b\"jsonrpc\":\"2.0\",\"method\":\"state.keys\",\"id\":null\x7d"

def longIdKeys : String :=
  "\x7b\"jsonrpc\":\"2.0\",\"method\":\"state.keys\",\"id\":12345678901234567890123\x7d"

def otherVersionKeys : String := "\x7b\"jsonrpc\":\"1.0\",\"method\":\"state.keys\",\"id\":1\x7d"

def emptyObject : String := "\x7b\x7d"

def hugeParams : String :=
  "\x7b\"jsonrpc\":\"2.0\",\"method\":\"state.keys\",\"params\":1e400,\"id\":1\x7d"

def keysRequest : String := "\x7b\"jsonrpc\":\"2.0\",\"method\":\"state.keys\",\"id\":1\x7d"

/-- The members of an object whose names are texts. -/
def textMembers (members : List (String × Json)) : List (Text × Json) :=
  members.map fun member => (.unicode member.1, member.2)

def callMembers (method : String) (version : String) (rest : List (String × Json)) :
    List (Text × Json) :=
  textMembers (("jsonrpc", .string (.unicode version)) :: ("method", .string (.unicode method))
    :: rest)

def integerOne : NumberLiteral := ⟨false, 1, none, none⟩

def longInteger : NumberLiteral := ⟨false, 12345678901234567890123, none, none⟩

def sampleLines : SerdeJson := SerdeJson.ofTable
  [(namelessSubscribe, .object (callMembers "state.subscribe" "2.0" [])),
    (nullIdKeys, .object (callMembers "state.keys" "2.0" [("id", .null)])),
    (longIdKeys, .object (callMembers "state.keys" "2.0" [("id", .number longInteger)])),
    (otherVersionKeys, .object (callMembers "state.keys" "1.0" [("id", .number integerOne)])),
    (emptyObject, .object []),
    (hugeParams, .object (callMembers "state.keys" "2.0"
      [("params", .number ⟨false, 1, none, some 400⟩), ("id", .number integerOne)])),
    (keysRequest, .object (callMembers "state.keys" "2.0" [("id", .number integerOne)]))]

def quietHandler : RpcHandler where
  store := StateStore.new "node-a"
  events := { sent := [], capacity := 4 }
  peers := ∅

/-! ### One response for every id -/

namespace RpcHandler

variable {serde : SerdeJson} {now : Nat} {lastSeenSecs : String → Nat} {handler : RpcHandler}
  {line : String}

/-- The replies to a request, by its id. -/
theorem replies_dispatch {req : RpcRequest} (hreq : serde.fromStr line = .ok req) :
    ∃ reply, Answers req (req.id.getD .null) reply
      ∧ (handler.dispatch serde.fromStr now lastSeenSecs line).2.replies
        = if req.method ≠ "state.subscribe" ∧ req.id = none then [] else [reply] := by
  obtain ⟨reply, _, hanswers, _, hresult⟩ :=
    @dispatch_ok serde.fromStr now lastSeenSecs handler line req hreq
  refine ⟨reply, hanswers, ?_⟩
  rw [hresult]
  by_cases hmethod : req.method = "state.subscribe"
  · simp [hmethod, DispatchResult.replies]
  · cases req.id <;> simp [hmethod, DispatchResult.replies]

theorem ofMembers_of_fromStr (hlawful : serde.Lawful) {members : List (Text × Json)}
    {req : RpcRequest} (hparse : serde.parse line = some (.object members))
    (hreq : serde.fromStr line = .ok req) : RpcRequest.OfMembers serde.float members req := by
  obtain ⟨json, hjson, hdeserialize⟩ := (hlawful line req).mp hreq
  obtain rfl := Option.some.inj (hparse.symm.trans hjson)
  exact RpcRequest.visitMap_eq_some.mp hdeserialize

/-- What the reply to a request shows as its id. -/
theorem disciplined_replies {float : NumberLiteral → Option ℚ} {members : List (Text × Json)}
    {req : RpcRequest} {reply : Outgoing} (hmembers : RpcRequest.OfMembers float members req)
    (hallowed : ∀ id, fieldOf members "id" = some id → id.IsId)
    (hreply : reply.id = some (req.id.getD .null)) :
    Disciplined (fieldOf members "id")
        (if req.method ≠ "state.subscribe" ∧ req.id = none then [] else [reply])
      ↔ (fieldOf members "id" = none → req.method ≠ "state.subscribe")
        ∧ (fieldOf members "id" = some .null → req.method = "state.subscribe")
        ∧ ∀ literal, fieldOf members "id" = some (.number literal) → literal.Exact float := by
  have hid := hmembers.id
  unfold RpcRequest.readId at hid
  cases hfield : fieldOf members "id" with
  | none =>
      rw [hfield] at hid
      have hnone : req.id = none := (Option.some.inj hid).symm
      by_cases hmethod : req.method = "state.subscribe" <;> simp [Disciplined, hmethod, hnone]
  | some id =>
      rw [hfield, Option.elim_some] at hid
      cases id with
      | null =>
          have hnone : req.id = none := (Option.some.inj hid).symm
          rw [hnone, Option.getD_none] at hreply
          by_cases hmethod : req.method = "state.subscribe" <;>
            simp [Disciplined, hmethod, hnone, hreply, Json.Shows]
      | number literal =>
          simp only [Json.readOption, Json.readValue_number, Option.map_map,
            Option.map_eq_some_iff] at hid
          obtain ⟨n, hread, hsome⟩ := hid
          rw [← hsome] at hreply
          have hexact : literal.Exact float ↔ n.value = literal.value := by
            simp [NumberLiteral.Exact, hread]
          rw [if_neg (by simp [← hsome])]
          simp [Disciplined, hreply, Json.Shows, hexact]
      | string text =>
          simp only [Json.readOption, Json.readValue_string, Option.map_map,
            Option.map_eq_some_iff, Text.read_eq_some] at hid
          obtain ⟨s, rfl, hsome⟩ := hid
          rw [← hsome] at hreply
          rw [if_neg (by simp [← hsome])]
          simp [Disciplined, hreply, Json.Shows]
      | bool b => exact absurd (hallowed _ hfield) id
      | array items => exact absurd (hallowed _ hfield) id
      | object members' => exact absurd (hallowed _ hfield) id

end RpcHandler

/-- **One response for every id.** For a request object the server follows the specification unless
it is a subscription without an `id` member, or its `id` is `null` and it is no subscription, or its
`id` is a number that the library does not keep. -/
theorem Connection.disciplined_iff {serde : SerdeJson} (hlawful : serde.Lawful) {c : Connection}
    {taken bytes : List UInt8} {text : List Char} (hpc : c.pc = .selecting taken)
    (hbytes : decode bytes = some text) (htext : trim text ≠ [])
    {members : List (Text × Json)} {req : RpcRequest}
    (hparse : serde.parse (String.ofList (trim text)) = some (.object members))
    (hreq : serde.fromStr (String.ofList (trim text)) = .ok req)
    (hallowed : ∀ id, fieldOf members "id" = some id → id.IsId) (now : Nat)
    (lastSeenSecs : String → Nat) :
    ∃ replies, (handleLine serde.fromStr now lastSeenSecs c bytes).lines = c.lines ++ replies
      ∧ (Disciplined (fieldOf members "id") replies ↔
          (fieldOf members "id" = none → req.method ≠ "state.subscribe")
            ∧ (fieldOf members "id" = some .null → req.method = "state.subscribe")
            ∧ ∀ literal, fieldOf members "id" = some (.number literal) →
                literal.Exact serde.float) := by
  obtain ⟨reply, hanswers, hreplies⟩ :=
    @RpcHandler.replies_dispatch serde now lastSeenSecs c.handler _ req hreq
  refine ⟨_, lines_handleLine hpc hbytes htext, ?_⟩
  rw [hreplies]
  exact RpcHandler.disciplined_replies (RpcHandler.ofMembers_of_fromStr hlawful hparse hreq)
    hallowed hanswers.replyId

theorem exact_integerOne (float : NumberLiteral → Option ℚ) : integerOne.Exact float :=
  NumberLiteral.exact_integer float rfl rfl (by decide)

theorem Connection.disciplined_iff_keysRequest :
    ∃ replies, ((Connection.new quietHandler []).handleLine sampleLines.fromStr 7 (fun _ => 0)
        (encode keysRequest.toList)).lines = replies
      ∧ Disciplined (some (.number integerOne)) replies := by
  have hline : String.ofList (trim keysRequest.toList) = keysRequest := by decide +kernel
  have hparse : sampleLines.parse (String.ofList (trim keysRequest.toList)) = some (.object
      (callMembers "state.keys" "2.0" [("id", .number integerOne)])) := by
    rw [hline]
    rfl
  have hreq : sampleLines.fromStr (String.ofList (trim keysRequest.toList)) = .ok
      { jsonrpc := "2.0", method := "state.keys", params := .null, id := some (.ofNat 1) } := by
    rw [hline]
    rfl
  have hid : fieldOf (callMembers "state.keys" "2.0" [("id", .number integerOne)]) "id"
      = some (.number integerOne) := rfl
  obtain ⟨replies, hlines, hiff⟩ := Connection.disciplined_iff
    (SerdeJson.lawful_ofTable _) (c := Connection.new quietHandler []) rfl
    (decode_encode keysRequest.toList) (by decide +kernel) hparse hreq
    (by rw [hid]; rintro _ ⟨⟩; trivial) 7 (fun _ => 0)
  rw [hid] at hiff
  refine ⟨replies, hlines, hiff.mpr ⟨by simp, by simp, ?_⟩⟩
  rintro _ ⟨⟩
  exact exact_integerOne _

/-- The number a reply shows as its id. -/
def Outgoing.idNumber (reply : Outgoing) : Option Number :=
  match reply.id with
  | some (.number n) => some n
  | _ => none

/-- A subscription without an id is answered, a request with a `null` id is not, and a long number
comes back as another one. -/
theorem unlike_ids :
    (∃ members req, sampleLines.parse namelessSubscribe = some (.object members)
        ∧ sampleLines.fromStr namelessSubscribe = .ok req ∧ fieldOf members "id" = none
        ∧ ((Connection.new quietHandler []).handleLine sampleLines.fromStr 7 (fun _ => 0)
            (encode namelessSubscribe.toList)).lines.length = 1)
      ∧ (∃ members req, sampleLines.parse nullIdKeys = some (.object members)
          ∧ sampleLines.fromStr nullIdKeys = .ok req ∧ fieldOf members "id" = some .null
          ∧ ((Connection.new quietHandler []).handleLine sampleLines.fromStr 7 (fun _ => 0)
              (encode nullIdKeys.toList)).lines.length = 0)
      ∧ ∃ members req n, sampleLines.parse longIdKeys = some (.object members)
          ∧ sampleLines.fromStr longIdKeys = .ok req
          ∧ fieldOf members "id" = some (.number longInteger)
          ∧ ((Connection.new quietHandler []).handleLine sampleLines.fromStr 7 (fun _ => 0)
              (encode longIdKeys.toList)).lines.map Outgoing.idNumber = [some n]
          ∧ n.value ≠ longInteger.value := by
  refine ⟨⟨_, _, rfl, rfl, rfl, ?_⟩, ⟨_, _, rfl, rfl, rfl, ?_⟩,
    ⟨_, _, .float 12345678901234568000000, rfl, rfl, rfl, ?_, ?_⟩⟩
  · decide +kernel
  · decide +kernel
  · decide +kernel
  · decide +kernel

/-! ### One class for every line -/

theorem Answers.code_cases {req : RpcRequest} {id : Value} {reply : Outgoing}
    (h : Answers req id reply) :
    reply.code = some ErrorCodes.methodNotFound ∨ reply.code = some ErrorCodes.invalidParams
      ∨ reply.code = none := by
  by_cases hmethod : req.method ∈ supportedMethods
  · by_cases hparams : MissingParam req.method req.params
    · exact Or.inr (Or.inl (h.invalidParams.mpr hparams))
    · obtain ⟨result, rfl⟩ := h.result hmethod hparams
      exact Or.inr (Or.inr rfl)
  · exact Or.inl (h.methodNotFound.mpr hmethod)

theorem errs_iff {result : DispatchResult} {reply : Outgoing} (h : result.replies = [reply])
    (code : Int) : result.Errs code ↔ reply.code = some code := by
  simp [DispatchResult.Errs, h]

theorem not_errs_of_nil {result : DispatchResult} (h : result.replies = []) (code : Int) :
    ¬ result.Errs code := by
  simp [DispatchResult.Errs, h]

namespace RpcHandler

variable {serde : SerdeJson} {now : Nat} {lastSeenSecs : String → Nat} {handler : RpcHandler}
  {line : String}

/-- Only what does not deserialize is answered with one of the first two codes. -/
theorem not_errs_of_ok {req : RpcRequest} (hreq : serde.fromStr line = .ok req) {code : Int}
    (hcode : code = ErrorCodes.parseError ∨ code = ErrorCodes.invalidRequest) :
    ¬ (handler.dispatch serde.fromStr now lastSeenSecs line).2.Errs code := by
  obtain ⟨reply, hanswers, hreplies⟩ :=
    @replies_dispatch serde now lastSeenSecs handler line req hreq
  split at hreplies
  · exact not_errs_of_nil hreplies code
  · rw [errs_iff hreplies]
    obtain h | h | h := hanswers.code_cases <;> rw [h] <;>
      obtain rfl | rfl := hcode <;> decide

theorem errs_of_error {e : String} (he : serde.fromStr line = .error e) (code : Int) :
    (handler.dispatch serde.fromStr now lastSeenSecs line).2.Errs code
      ↔ code = ErrorCodes.parseError := by
  rw [dispatch_error he, errs_iff rfl]
  simp [Outgoing.code, RpcError.new, eq_comm]

/-- A request object that is readable, with no field twice, deserializes. -/
theorem exists_fromStr (hlawful : serde.Lawful) {members : List (Text × Json)}
    (hparse : serde.parse line = some (.object members)) (hvalid : ValidRequest (.object members))
    (honce : ∀ field ∈ ["jsonrpc", "method", "params", "id"],
      RpcRequest.occurrences members field ≤ 1)
    (hreadable : RpcRequest.Readable serde.float members) :
    ∃ req, serde.fromStr line = .ok req ∧ RpcRequest.OfMembers serde.float members req := by
  obtain ⟨hjsonrpc, method, hmethod⟩ := hvalid
  obtain ⟨hnames, htext, hparams, hid⟩ := hreadable
  obtain ⟨params, hparams⟩ := Option.isSome_iff_exists.mp hparams
  obtain ⟨id, hid⟩ := Option.isSome_iff_exists.mp hid
  cases method with
  | surrogate literal => simpa [Text.isUnicode] using htext _ hmethod
  | unicode name =>
      have hreq : RpcRequest.OfMembers serde.float members
          { jsonrpc := "2.0", method := name, params := params, id := id } :=
        ⟨hnames, honce, hjsonrpc, hmethod, hparams, hid⟩
      exact ⟨_, (hlawful line _).mpr ⟨_, hparse, RpcRequest.visitMap_eq_some.mpr hreq⟩, hreq⟩

/-- What deserializes is readable. -/
theorem readable_of_ofMembers {float : NumberLiteral → Option ℚ} {members : List (Text × Json)}
    {req : RpcRequest} (h : RpcRequest.OfMembers float members req) :
    RpcRequest.Readable float members := by
  refine ⟨h.names, ?_, by rw [h.params]; rfl, by rw [h.id]; rfl⟩
  intro method hmethod
  obtain rfl : Text.unicode req.method = method := by simpa using h.method.symm.trans hmethod
  rfl

/-- A readable request object with an id is not left without an answer. -/
theorem Classified.replies_ne_nil {result : DispatchResult} (h : Classified serde line result)
    {members : List (Text × Json)} {method : String} {id : Json} {params : Value}
    (hparse : serde.parse line = some (.object members)) (hvalid : ValidRequest (.object members))
    (hmethod : fieldOf members "method" = some (.string (.unicode method)))
    (hid : fieldOf members "id" = some id)
    (hparams : RpcRequest.readParams serde.float members = some params) : result.replies ≠ [] := by
  intro hnil
  by_cases hsupported : method ∈ supportedMethods
  · by_cases hmissing : MissingParam method params
    · exact not_errs_of_nil hnil _
        ((h.invalidParams members method id params hparse hvalid hmethod hid hparams).mpr hmissing)
    · obtain ⟨response, hresponse⟩ :=
        h.result members method id params hparse hvalid hmethod hid hparams hsupported hmissing
      simp [hnil] at hresponse
  · refine not_errs_of_nil hnil _
      ((h.methodNotFound members _ id hparse hvalid hmethod hid).mpr ?_)
    simpa [Text.Supported] using hsupported

/-- A request with a `null` id that is answered is a subscription. -/
theorem Classified.subscribes {members : List (Text × Json)} {req : RpcRequest}
    (h : Classified serde line (handler.dispatch serde.fromStr now lastSeenSecs line).2)
    (hparse : serde.parse line = some (.object members)) (hvalid : ValidRequest (.object members))
    (hreq : serde.fromStr line = .ok req)
    (hmembers : RpcRequest.OfMembers serde.float members req)
    (hid : fieldOf members "id" = some .null) :
    fieldOf members "method" = some (.string (.unicode "state.subscribe")) := by
  by_contra hsubscribe
  have hskipped : req.method ≠ "state.subscribe" ∧ req.id = none := by
    constructor
    · intro hmethod
      rw [hmembers.method, hmethod] at hsubscribe
      exact hsubscribe rfl
    · have hread := hmembers.id
      rw [RpcRequest.readId, hid] at hread
      exact (Option.some.inj hread).symm
  obtain ⟨reply, _, hreplies⟩ :=
    @replies_dispatch serde now lastSeenSecs handler line req hreq
  rw [if_pos hskipped] at hreplies
  exact Classified.replies_ne_nil h hparse hvalid hmembers.method hid hmembers.params hreplies

theorem classified_of_parse_none (hlawful : serde.Lawful) (hparse : serde.parse line = none) :
    Classified serde line (handler.dispatch serde.fromStr now lastSeenSecs line).2 := by
  cases hreq : serde.fromStr line with
  | ok req =>
      obtain ⟨json, hjson, _⟩ := (hlawful line req).mp hreq
      simp [hparse] at hjson
  | error e =>
      constructor
      · exact iff_of_true ((errs_of_error hreq _).mpr rfl) hparse
      · refine iff_of_false ?_ (by simp [hparse])
        rw [errs_of_error hreq]
        decide
      all_goals simp [hparse]

theorem classified_of_valid (hlawful : serde.Lawful) {members : List (Text × Json)}
    (hparse : serde.parse line = some (.object members)) (hvalid : ValidRequest (.object members))
    (honce : ∀ field ∈ ["jsonrpc", "method", "params", "id"],
      RpcRequest.occurrences members field ≤ 1)
    (hreadable : RpcRequest.Readable serde.float members)
    (hnull : fieldOf members "id" = some .null →
      fieldOf members "method" = some (.string (.unicode "state.subscribe"))) :
    Classified serde line (handler.dispatch serde.fromStr now lastSeenSecs line).2 := by
  obtain ⟨req, hreq, hmembers⟩ := exists_fromStr hlawful hparse hvalid honce hreadable
  obtain ⟨reply, hanswers, hreplies⟩ :=
    @replies_dispatch serde now lastSeenSecs handler line req hreq
  have hsame {members' : List (Text × Json)} {method : Text} {id : Json}
      (hparse' : serde.parse line = some (.object members'))
      (hmethod : fieldOf members' "method" = some (.string method))
      (hid : fieldOf members' "id" = some id) :
      members = members' ∧ method = .unicode req.method
        ∧ (handler.dispatch serde.fromStr now lastSeenSecs line).2.replies = [reply] := by
    obtain rfl : members = members' := by simpa using hparse.symm.trans hparse'
    obtain rfl : Text.unicode req.method = method := by
      simpa using hmembers.method.symm.trans hmethod
    refine ⟨rfl, rfl, ?_⟩
    rw [hreplies, if_neg]
    rintro ⟨hne, hnone⟩
    have hread := hmembers.id
    rw [RpcRequest.readId, hid, Option.elim_some, hnone] at hread
    obtain rfl := Json.readOption_eq_none.mp hread
    exact hne (by simpa using hmethod.symm.trans (hnull hid))
  have hrequest {members' : List (Text × Json)} {method : String} {id : Json} {params : Value}
      (hparse' : serde.parse line = some (.object members'))
      (hmethod : fieldOf members' "method" = some (.string (.unicode method)))
      (hid : fieldOf members' "id" = some id)
      (hparams : RpcRequest.readParams serde.float members' = some params) :
      req.method = method ∧ req.params = params
        ∧ (handler.dispatch serde.fromStr now lastSeenSecs line).2.replies = [reply] := by
    obtain ⟨rfl, heq, hreply⟩ := hsame hparse' hmethod hid
    have hparams := Option.some.inj (hmembers.params.symm.trans hparams)
    exact ⟨(Text.unicode.inj heq).symm, hparams, hreply⟩
  constructor
  · exact iff_of_false (not_errs_of_ok hreq (Or.inl rfl)) (by simp [hparse])
  · refine iff_of_false (not_errs_of_ok hreq (Or.inr rfl)) ?_
    rintro ⟨json, hjson, hinvalid⟩
    obtain rfl := Option.some.inj (hparse.symm.trans hjson)
    exact hinvalid hvalid
  · intro members' method id hparse' _ hmethod hid
    obtain ⟨_, rfl, hreply⟩ := hsame hparse' hmethod hid
    rw [errs_iff hreply, hanswers.methodNotFound]
    simp [Text.Supported]
  · intro members' method id params hparse' _ hmethod hid hparams
    obtain ⟨rfl, rfl, hreply⟩ := hrequest hparse' hmethod hid hparams
    rw [errs_iff hreply]
    exact hanswers.invalidParams
  · intro members' method id params hparse' _ hmethod hid hparams hsupported hgiven
    obtain ⟨rfl, rfl, hreply⟩ := hrequest hparse' hmethod hid hparams
    obtain ⟨result, rfl⟩ := hanswers.result hsupported hgiven
    exact ⟨_, hreply⟩

/-- **One class for every line.** The answer is the one the specification asks exactly for the lines
that are no JSON, and for the request objects that the library can read, without a field twice,
whose `id`, when there is one, is not `null` or which are subscriptions. -/
theorem classified_iff (hlawful : serde.Lawful) (now : Nat) (lastSeenSecs : String → Nat)
    (handler : RpcHandler) (line : String) :
    Classified serde line (handler.dispatch serde.fromStr now lastSeenSecs line).2 ↔
      serde.parse line = none ∨ ∃ members, serde.parse line = some (.object members)
        ∧ ValidRequest (.object members)
        ∧ (∀ field ∈ ["jsonrpc", "method", "params", "id"],
            RpcRequest.occurrences members field ≤ 1)
        ∧ RpcRequest.Readable serde.float members
        ∧ (fieldOf members "id" = some .null →
            fieldOf members "method" = some (.string (.unicode "state.subscribe"))) := by
  constructor
  · intro h
    cases hparse : serde.parse line with
    | none => exact Or.inl rfl
    | some json =>
        refine Or.inr ?_
        cases hreq : serde.fromStr line with
        | error e =>
            have hnone := h.parseError.mp ((errs_of_error hreq _).mpr rfl)
            simp [hparse] at hnone
        | ok req =>
            have hvalid : ValidRequest json := by
              by_contra hinvalid
              exact not_errs_of_ok hreq (Or.inr rfl) (h.invalidRequest.mpr ⟨json, hparse, hinvalid⟩)
            cases json with
            | object members =>
                have hmembers := ofMembers_of_fromStr hlawful hparse hreq
                exact ⟨members, rfl, hvalid, hmembers.once, readable_of_ofMembers hmembers,
                  Classified.subscribes h hparse hvalid hreq hmembers⟩
            | _ => exact absurd hvalid id
  · rintro (hparse | ⟨members, hparse, hvalid, honce, hreadable, hnull⟩)
    · exact classified_of_parse_none hlawful hparse
    · exact classified_of_valid hlawful hparse hvalid honce hreadable hnull

theorem classified_iff_keysRequest :
    Classified sampleLines keysRequest
      (quietHandler.dispatch sampleLines.fromStr 7 (fun _ => 0) keysRequest).2 := by
  refine (classified_iff (SerdeJson.lawful_ofTable _) 7 (fun _ => 0) quietHandler keysRequest).mpr
    (Or.inr ⟨callMembers "state.keys" "2.0" [("id", .number integerOne)], rfl,
      ⟨rfl, .unicode "state.keys", rfl⟩, by decide, ?_, ?_⟩)
  · refine ⟨by decide, ?_, rfl, rfl⟩
    rintro _ ⟨⟩
    rfl
  · rintro ⟨⟩

/-- An object that is no request and a request with a number that is too large are answered as if
they were no JSON, another version as if it were this one, and a `null` id not at all. -/
theorem lines_misclassified :
    ¬ Classified sampleLines emptyObject
        (quietHandler.dispatch sampleLines.fromStr 7 (fun _ => 0) emptyObject).2
      ∧ ¬ Classified sampleLines hugeParams
        (quietHandler.dispatch sampleLines.fromStr 7 (fun _ => 0) hugeParams).2
      ∧ ¬ Classified sampleLines otherVersionKeys
        (quietHandler.dispatch sampleLines.fromStr 7 (fun _ => 0) otherVersionKeys).2
      ∧ ¬ Classified sampleLines nullIdKeys
        (quietHandler.dispatch sampleLines.fromStr 7 (fun _ => 0) nullIdKeys).2 := by
  have hfails {line : String} {json : Json} (herror : sampleLines.fromStr line
      = .error "missing field") (hparse : sampleLines.parse line = some json) :
      ¬ Classified sampleLines line
        (quietHandler.dispatch sampleLines.fromStr 7 (fun _ => 0) line).2 := by
    intro h
    have hnone := h.parseError.mp ((errs_of_error herror _).mpr rfl)
    simp [hparse] at hnone
  refine ⟨hfails rfl rfl, hfails rfl rfl, fun h => ?_, fun h => ?_⟩
  · have hok : sampleLines.fromStr otherVersionKeys = .ok
        { jsonrpc := "1.0", method := "state.keys", params := .null, id := some (.ofNat 1) } := rfl
    refine not_errs_of_ok hok (Or.inr rfl) (h.invalidRequest.mpr ⟨_, rfl, ?_⟩)
    rintro ⟨hversion, _⟩
    have heq : some (Json.string (.unicode "1.0")) = some (.string (.unicode "2.0")) := hversion
    simp at heq
  · have hparse : sampleLines.parse nullIdKeys
        = some (.object (callMembers "state.keys" "2.0" [("id", .null)])) := rfl
    have hmethod : fieldOf (callMembers "state.keys" "2.0" [("id", .null)]) "method"
        = some (.string (.unicode "state.keys")) := rfl
    have hparams : RpcRequest.readParams sampleFloat
        (callMembers "state.keys" "2.0" [("id", .null)]) = some .null := rfl
    exact Classified.replies_ne_nil h hparse ⟨rfl, _, hmethod⟩ hmethod rfl hparams rfl

end RpcHandler

end StateSync
