import EventStream.Database

/-! Migrations. Each is a change of the database that may fail; it is carried out together
with the record of its name, or not at all. -/

namespace EventStream

structure Migration where
  name : String
  run : Database → Option Database

namespace Migration

/-- Where the names of the migrations carried out are kept. -/
def ledger : String := "_tidewatch_migrations"

def ledgerTable : Table where
  columns := ["id", "name", "applied_at"]
  uniqueNames := true
  isNumbered := true

inductive Failure where
  | executionFailed (name : String)
  | stateQuery
  deriving DecidableEq, Repr

/-- The names on record, if the ledger can be read and holds a name in each row. -/
def recorded? (db : Database) : Option (List String) := do
  (← db.names? ledger).mapM id

def carryOut? (m : Migration) (db : Database) : Option Database := do
  (← m.run db).insertName? ledger (some m.name)

/-- Carries out the migrations in order until one fails; those before it stay. -/
def applyAll : List Migration → Database → Database × Except Failure Nat
  | [], db => (db, .ok 0)
  | m :: ms, db =>
    match m.carryOut? db with
    | none => (db, .error (.executionFailed m.name))
    | some db =>
      match applyAll ms db with
      | (db, .ok n) => (db, .ok (n + 1))
      | (db, .error e) => (db, .error e)

/-- Carries out the migrations that are not on record and tells how many they were. -/
def applyPending (ms : List Migration) (db : Database) : Database × Except Failure Nat :=
  match db.ensureTable? ledger ledgerTable with
  | none => (db, .error .stateQuery)
  | some db =>
    match recorded? db with
    | none => (db, .error .stateQuery)
    | some done => applyAll (ms.filter fun m => !done.contains m.name) db

/-! ### The event log's migrations -/

/-- The ledger's own migration keeps the history complete. -/
def init : Migration where
  name := "000_init"
  run db := db.ensureTable? ledger ledgerTable

def eventsTable : Table where
  columns := ["id", "public_key", "policy_id", "event_type", "event_data", "created_at_us"]
  isNumbered := true

def systemEvents : Migration where
  name := "001_system_events"
  run db := do
    let db ← db.ensureTable? "system_events" eventsTable
    let db ← db.ensureIndex? "idx_system_events_created_at" "system_events"
      ["created_at_us", "id"]
    db.ensureIndex? "idx_system_events_policy" "system_events" ["policy_id"]

def all : List Migration := [init, systemEvents]

/-- Brings the schema of the event log up to date. -/
def runAll (db : Database) : Database × Except Failure Nat := applyPending all db

end Migration

end EventStream
