import EventStream.Database

/-! What a statement asks of the schema: a table, or also a view where it only reads, and the
columns that it names. -/

namespace EventStream

/-- What a statement names that the database does not have. -/
inductive Lack where
  | table (name : String)
  | column (name : String)
  deriving DecidableEq, Repr

structure Statement where
  table : String
  /-- The columns that get a value in a new row; there is none where rows are only read. -/
  written : List String := []
  read : List String

namespace Statement

def columns? (s : Statement) (db : Database) : Option (List String) :=
  if s.written = [] then db.created? s.table else (db.table? s.table).map (·.columns)

/-- What the statement fails for, if it fails for that: its table is looked up first, and then its
columns in the order in which they are named. -/
def lack? (s : Statement) (db : Database) : Option Lack :=
  match s.columns? db with
  | none => some (.table s.table)
  | some columns => ((s.written ++ s.read).find? (!Database.hasColumn columns ·)).map .column

/-! ### The event log's statements -/

/-- Adds an event and reads the id that it got. -/
def append : Statement where
  table := "system_events"
  written := ["public_key", "policy_id", "event_type", "event_data", "created_at_us"]
  read := ["id"]

/-- Reads the events after an instant in the order of their ids. -/
def eventsAfter : Statement where
  table := "system_events"
  read := ["id", "public_key", "policy_id", "event_type", "event_data", "created_at_us"] ++
    ["created_at_us", "id"]

end Statement

end EventStream
