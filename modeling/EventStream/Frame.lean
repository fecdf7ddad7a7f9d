import EventStream.Event
import EventStream.Instant.Rfc3339
import EventStream.Json.Reader
import EventStream.Json.Writer

/-! Frames sent to subscribers. An event becomes a message only if its payload is JSON;
the payload's text is then forwarded as it is, without the blanks around it. -/

namespace EventStream

/-- An event as subscribers and readers of the history see it. -/
structure Message where
  id : Int
  publicKey : Option String
  policyId : Option Uuid
  label : Label
  /-- The text of one JSON value. -/
  data : String
  createdAt : Instant
  deriving DecidableEq

namespace Message

/-- The text of a payload that is one JSON value; an empty payload is `null`. -/
def data? (payload : ByteArray) : Option String :=
  if payload.size = 0 then some "null"
  else do
    let text ← String.fromUTF8? payload
    return String.ofList (← Json.verbatim? text.toList)

def ofEvent? (e : Event) : Option Message := do
  return { e with data := ← data? e.payload }

/-- The policy's member, which is left out when the event has none. -/
def policyText : Option Uuid → String
  | some u => "\"policy_id\":" ++ Json.quote u.hyphenated ++ ","
  | none => ""

def text (m : Message) : String :=
  "\x7b\"id\":" ++ toString m.id ++
  ",\"public_key\":" ++ Json.quote? m.publicKey ++ "," ++
  policyText m.policyId ++
  "\"event_type\":" ++ Json.quote m.label.text ++
  ",\"event_data\":" ++ m.data ++
  ",\"created_at\":" ++ Json.quote m.createdAt.rfc3339 ++ "\x7d"

end Message

inductive Frame where
  | event (message : Message)
  | subscriptionConfirmed (channel : Channel)
  | error (message : String)
  /-- Text that the caller has framed. -/
  | verbatim (text : String)
  deriving DecidableEq

namespace Frame

/-- A frame is an object of its type and its data. -/
def envelope (type data : String) : String :=
  "\x7b\"type\":" ++ Json.quote type ++ ",\"data\":" ++ data ++ "\x7d"

def text : Frame → String
  | event m => envelope "event" m.text
  | subscriptionConfirmed channel =>
    envelope "subscription_confirmed" ("\x7b\"channel\":" ++ Json.quote channel.name ++ "\x7d")
  | error message => envelope "error" ("\x7b\"message\":" ++ Json.quote message ++ "\x7d")
  | verbatim text => text

/-- The frame that ends a replay whose history could not be read or delivered. -/
def historyFailed : Frame := error "failed to get historical events"

/-- A replay ends with one of these, and so does the answer to a refused request. -/
def isTerminal : Frame → Bool
  | subscriptionConfirmed _ => true
  | error _ => true
  | _ => false

end Frame

/-- The text of an event's frame, if its payload is JSON. -/
def Event.frameText? (e : Event) : Option String :=
  (Message.ofEvent? e).map fun m => (Frame.event m).text

end EventStream
