import EventStream.Instant
import EventStream.Uuid
import EventStream.Vocabulary

/-! System events: drafts about to be appended and the records that the log keeps. -/

namespace EventStream

instance (priority := high) decidableEqPayload : DecidableEq ByteArray := ByteArray.instDecidableEq

structure Event where
  id : Int
  publicKey : Option String
  policyId : Option Uuid
  label : Label
  /-- JSON text; empty when there is no payload. -/
  payload : ByteArray
  createdAt : Instant
  deriving DecidableEq

/-- An event that has no id yet. -/
structure Draft where
  kind : Kind
  createdAt : Instant
  publicKey : Option String := none
  policyId : Option Uuid := none
  payload : ByteArray := .empty
  deriving DecidableEq

namespace Draft

/-- The log keeps whole microseconds, so a draft's time is cut to them. -/
def stamped (kind : Kind) (time : Instant) : Draft := { kind, createdAt := time.truncate }

/-- The record that a draft becomes under `id`. -/
def event (d : Draft) (id : Int) : Event where
  id := id
  publicKey := d.publicKey
  policyId := d.policyId
  label := .known d.kind
  payload := d.payload
  createdAt := d.createdAt

end Draft

namespace Event

/-- `e` before the first event of a greater or equal id. -/
def insertById (e : Event) : List Event → List Event
  | [] => [e]
  | x :: xs => if e.id ≤ x.id then e :: x :: xs else x :: insertById e xs

/-- Ascending by id; events of one id keep their order. -/
def sortById (events : List Event) : List Event := events.foldr insertById []

end Event

end EventStream
