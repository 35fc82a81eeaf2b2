import StateSync.State.Crdt
import Mathlib.Data.Rat.Init

/-!
# JSON-RPC messages

The JSON values, the request a line deserializes to, and what the server sends back. A value is one
the library has read or is going to write, not a text: the members of an object have different
names. Serialization is left out: a message stands for the line of JSON that `to_json` makes of it.
-/

namespace StateSync

/-- A JSON number, in the three representations the library keeps apart. A float stands for the
decimal number it is written as. -/
inductive Number
  | posInt (n : Nat)
  | negInt (n : Int)
  | float (shown : ℚ)
deriving DecidableEq, Repr

def Number.value : Number → ℚ
  | .posInt n => n
  | .negInt n => n
  | .float shown => shown

inductive Value
  | null
  | bool (b : Bool)
  | number (n : Number)
  | string (s : String)
  | array (items : List Value)
  | object (members : List (String × Value))

namespace Value

def get (v : Value) (field : String) : Option Value :=
  match v with
  | .object members => members.lookup field
  | _ => none

def asStr : Value → Option String
  | .string s => some s
  | _ => none

theorem asStr_eq_some {v : Value} {s : String} : v.asStr = some s ↔ v = .string s := by
  cases v <;> simp [asStr]

def asU64 : Value → Option Nat
  | .number (.posInt n) => some n
  | _ => none

def ofNat (n : Nat) : Value := .number (.posInt n)

def ofOption : Option String → Value
  | none => .null
  | some s => .string s

end Value

/-- A request. `id` is `none` for a notification, `params` is `null` when absent. -/
structure RpcRequest where
  jsonrpc : String
  method : String
  params : Value
  id : Option Value

structure RpcResponse where
  jsonrpc : String
  result : Value
  id : Value

structure RpcErrorBody where
  code : Int
  message : String
  data : Option Value

structure RpcError where
  jsonrpc : String
  error : RpcErrorBody
  id : Value

structure RpcNotification where
  jsonrpc : String
  method : String
  params : Value

inductive Outgoing
  | response (response : RpcResponse)
  | error (error : RpcError)
  | notification (notification : RpcNotification)

namespace ErrorCodes

def parseError : Int := -32700
def invalidRequest : Int := -32600
def methodNotFound : Int := -32601
def invalidParams : Int := -32602

end ErrorCodes

def RpcResponse.ok (result id : Value) : RpcResponse :=
  { jsonrpc := "2.0", result := result, id := id }

def RpcError.new (code : Int) (message : String) (id : Value) : RpcError :=
  { jsonrpc := "2.0", error := { code := code, message := message, data := none }, id := id }

/-- A key and its value with the stamp, as every message shows an entry. -/
def Value.ofEntry (key : String) (v : LwwValue) : Value :=
  .object [("key", .string key), ("value", .string v.value),
    ("timestamp", .ofNat v.timestamp), ("node_id", .string v.nodeId)]

namespace RpcNotification

def stateUpdate (key : String) (val : LwwValue) : RpcNotification :=
  { jsonrpc := "2.0", method := "state.update", params := .ofEntry key val }

def lag (dropped : Nat) : RpcNotification :=
  { jsonrpc := "2.0", method := "state.lag", params := .object [("dropped", .ofNat dropped)] }

end RpcNotification

end StateSync
