import EventStream.Event

/-! Rows of the event log's table and the events they hold. -/

namespace EventStream

/-- What a column holds in one row. -/
inductive Cell where
  | null
  /-- A number, whole or not; nothing here is read as one. -/
  | number
  | text (value : String)
  /-- A text whose bytes are no UTF-8. -/
  | garbled
  | blob (value : ByteArray)
  deriving DecidableEq

/-- A stored row. Its id is always an integer; the other columns take what was written. -/
structure Row where
  id : Int
  publicKey : Cell
  policyId : Cell
  eventType : Cell
  eventData : Cell
  /-- The time in microseconds since the epoch. Of a value that is no integer it is the least
  integer not below, and for a text or bytes one above all times, as these are compared. -/
  createdAt : Int
  /-- Whether the time is an integer. -/
  isTimed : Bool := true
  deriving DecidableEq

/-- Why the log could not be read or written. Columns count from 0 in the order id,
public key, policy id, event type, event data, creation time. -/
inductive LogError where
  | invalidQuery
  | columnType (column : Nat)
  | timeOutOfRange (column : Nat) (value : Int)
  /-- Any other failure of the table, such as a text that is no UTF-8. -/
  | storage
  deriving DecidableEq, Repr

namespace Cell

def text? (column : Nat) : Cell → Except LogError (Option String)
  | null => .ok none
  | text s => .ok (some s)
  | garbled => .error .storage
  | _ => .error (.columnType column)

def label (column : Nat) : Cell → Except LogError Label
  | text s => .ok (.ofText s)
  | garbled => .error .storage
  | _ => .error (.columnType column)

def bytes (column : Nat) : Cell → Except LogError ByteArray
  | blob b => .ok b
  | _ => .error (.columnType column)

end Cell

namespace Row

def time (micros : Int) : Except LogError Instant :=
  match Instant.ofMicros? micros with
  | some t => .ok t
  | none => .error (.timeOutOfRange 5 micros)

def stamp (r : Row) : Except LogError Instant :=
  if r.isTimed then time r.createdAt else .error (.columnType 5)

/-- The event of a row. The first column in this order that cannot be read decides the
error; a policy that is no UUID is left out. -/
def event (r : Row) : Except LogError Event := do
  let policy ← r.policyId.text? 2
  let createdAt ← r.stamp
  let publicKey ← r.publicKey.text? 1
  let label ← r.eventType.label 3
  let payload ← r.eventData.bytes 4
  return { id := r.id, publicKey, policyId := policy >>= Uuid.parse?, label, payload, createdAt }

/-- The row of a draft under `id`. -/
def ofDraft (d : Draft) (id : Int) : Row where
  id := id
  publicKey := d.publicKey.elim .null .text
  policyId := d.policyId.elim .null (.text ·.hyphenated)
  eventType := .text d.kind.label
  eventData := .blob d.payload
  createdAt := d.createdAt.micros

end Row

end EventStream
