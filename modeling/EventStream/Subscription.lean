import EventStream.Instant
import EventStream.Json.Document
import EventStream.Vocabulary

/-! Requests of subscribers. A request is an envelope of a type and data, given as an
object or as an array in field order, and the only type served is `subscribe`. -/

namespace EventStream

open Json (Tree Value)

structure Subscription where
  channel : Channel
  /-- Events created later are owed; without it no history is. -/
  lastSeen : Option Instant := none
  deriving DecidableEq

namespace Subscription

/-- Why a request is refused. -/
inductive Refusal where
  | invalidMessage
  | invalidSubscription
  | unknownChannel (name : String)
  | unknownType (name : String)
  deriving DecidableEq, Repr

/-- What the client is told. -/
def Refusal.message : Refusal → String
  | invalidMessage => "invalid message"
  | invalidSubscription => "invalid subscription request"
  | unknownChannel _ => "unknown channel"
  | unknownType _ => "unknown message type"

structure Envelope where
  type : String
  data : Option Value

namespace Envelope

/-- The envelope is one of the containers that nest. -/
def dataDepth : Nat := Json.maxDepth - 1

def type? : Tree → Option String
  | .string pieces => Json.text? pieces
  | _ => none

/-- `null` counts as absent. -/
def data? : Tree → Option (Option Value)
  | .null => some none
  | t => (t.value? dataDepth).map some

/-- The tree of a key that must not occur twice. -/
def single? (key : String) (members : List (String × Tree)) : Option (Option Tree) :=
  match members.filter (·.1 = key) with
  | [] => some none
  | [(_, t)] => some (some t)
  | _ => none

def keyed? : List (List Json.Piece × Tree) → Option (List (String × Tree))
  | [] => some []
  | (key, t) :: rest => do return (← Json.text? key, t) :: (← keyed? rest)

/-- Other members than `type` and `data` are not looked at, beyond their key. -/
def ofTree? : Tree → Option Envelope
  | .object members => do
    let members ← keyed? members
    let type ← type? (← (← single? "type" members))
    let data ← match ← single? "data" members with
      | some t => data? t
      | none => some none
    return { type, data }
  | .array [type] => do return { type := ← type? type, data := none }
  | .array [type, data] => do return { type := ← type? type, data := ← data? data }
  | _ => none

end Envelope

/-- The channel's name and the cursor in milliseconds; other members are not looked at. -/
def fields? : Value → Option (String × Option Int)
  | .object members => do
    let .string channel ← Json.member? "channel" members | none
    return (channel, ← cursor? ((Json.member? "last_seen" members).getD .null))
  | .array [.string channel] => some (channel, none)
  | .array [.string channel, cursor] => do return (channel, ← cursor? cursor)
  | _ => none
where
  cursor? : Value → Option (Option Int)
    | .null => some none
    | .integer ms => some (some ms)
    | _ => none

/-- The first fault decides: the envelope, then the type, then the data's shape, then the
cursor's range, then the channel. -/
def decode (text : String) : Except Refusal Subscription := do
  let some envelope := Json.document? text.toList >>= Envelope.ofTree?
    | throw .invalidMessage
  if envelope.type ≠ "subscribe" then throw (.unknownType envelope.type)
  let some (name, cursor) := envelope.data >>= fields? | throw .invalidSubscription
  let lastSeen ← match cursor with
    | none => pure none
    | some ms =>
      match Instant.ofMillis? ms with
      | some t => pure (some t)
      | none => throw .invalidSubscription
  let some channel := Channel.ofName? name | throw (.unknownChannel name)
  return { channel, lastSeen }

end Subscription

end EventStream
