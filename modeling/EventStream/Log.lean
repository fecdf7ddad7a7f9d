import EventStream.Log.Row

/-! The event log: a table whose ids only grow. An id is one more than the greatest that
any row ever had, so it is not given again after its row is gone. -/

namespace EventStream

structure Log where
  /-- Ascending by id. -/
  rows : List Row
  /-- The greatest id ever used, at least 0. -/
  lastId : Int
  ascending : rows.Pairwise (·.id < ·.id)
  id_le_lastId : ∀ r ∈ rows, r.id ≤ lastId
  lastId_nonneg : 0 ≤ lastId

namespace Log

def maxId : Int := Int.pow 2 63 - 1

def empty : Log := ⟨[], 0, .nil, by simp, by decide⟩

instance : Inhabited Log := ⟨empty⟩

/-! ### Writing -/

/-- `row` after the rows of smaller ids. -/
def place (row : Row) : List Row → List Row
  | [] => [row]
  | r :: rows => if row.id < r.id then row :: r :: rows else r :: place row rows

theorem mem_place {row r : Row} {rows : List Row} :
    r ∈ place row rows ↔ r = row ∨ r ∈ rows := by
  induction rows with
  | nil => simp [place]
  | cons x rows ih => unfold place; split <;> simp_all; grind

theorem pairwise_place {row : Row} {rows : List Row} (h : rows.Pairwise (·.id < ·.id))
    (hne : ∀ r ∈ rows, r.id ≠ row.id) : (place row rows).Pairwise (·.id < ·.id) := by
  induction rows with
  | nil => simp [place]
  | cons x rows ih =>
    obtain ⟨hx, hrows⟩ := List.pairwise_cons.1 h
    have hne' := List.forall_mem_cons.1 hne
    unfold place
    split
    · next hlt =>
      refine List.pairwise_cons.2 ⟨fun r hr => ?_, h⟩
      rcases List.mem_cons.1 hr with rfl | hr
      · exact hlt
      · exact Int.lt_trans hlt (hx r hr)
    · refine List.pairwise_cons.2 ⟨fun r hr => ?_, ih hrows hne'.2⟩
      rcases mem_place.1 hr with rfl | hr
      · have := hne'.1; omega
      · exact hx r hr

/-- Stores a row whose id is free. -/
def insert (log : Log) (row : Row) (h : ∀ r ∈ log.rows, r.id ≠ row.id) : Log where
  rows := place row log.rows
  lastId := max log.lastId row.id
  ascending := pairwise_place log.ascending h
  id_le_lastId := by
    intro r hr
    rcases mem_place.1 hr with rfl | hr
    · exact Int.le_max_right ..
    · exact Int.le_trans (log.id_le_lastId r hr) (Int.le_max_left ..)
  lastId_nonneg := Int.le_trans log.lastId_nonneg (Int.le_max_left ..)

/-- Stores the row under the id asked for, or under the next one. An id that is taken, ids
that are used up and a missing event type are refused. -/
def insertRow (log : Log) (id : Option Int) (row : Row) : Except LogError (Int × Log) :=
  if row.eventType = .null then .error .storage
  else
    let next := id.getD (log.lastId + 1)
    if id = none ∧ maxId ≤ log.lastId then .error .storage
    else if h : ∀ r ∈ log.rows, r.id ≠ next then
      .ok (next, log.insert { row with id := next } h)
    else .error .storage

/-- Stores a draft under the next id. -/
def append (log : Log) (d : Draft) : Except LogError (Int × Log) :=
  log.insertRow none (.ofDraft d 0)

/-- Takes the row with that id away and tells how many rows that were. -/
def delete (log : Log) (id : Int) : Nat × Log :=
  ((log.rows.filter (·.id = id)).length,
    { log with
      rows := log.rows.filter (·.id ≠ id)
      ascending := log.ascending.sublist List.filter_sublist
      id_le_lastId := fun r hr => log.id_le_lastId r (List.mem_filter.1 hr).1 })

/-! ### Reading -/

/-- The events of the rows, or the error of the first row that holds none. -/
def events : List Row → Except LogError (List Event)
  | [] => .ok []
  | r :: rows => do return (← r.event) :: (← events rows)

/-- Every event created after `cursor`, ascending by id. -/
def eventsAfter (log : Log) (cursor : Instant) : Except LogError (List Event) :=
  events (log.rows.filter (cursor.micros < ·.createdAt))

/-- What a bounded reader of the log asks for. Each condition applies only if present. -/
structure Criteria where
  since : Option Instant := none
  kind : Option Kind := none
  policyId : Option Uuid := none
  limit : Option Int := none

namespace Criteria

/-- The stored text is compared as it stands, so a policy must be stored in its hyphenated
lower-case form. -/
def admits (c : Criteria) (r : Row) : Bool :=
  c.since.all (·.micros < r.createdAt) &&
  c.kind.all (r.eventType = .text ·.label) &&
  c.policyId.all (r.policyId = .text ·.hyphenated)

/-- A hundred without a limit; no bound under a negative one. -/
def take (c : Criteria) (rows : List Row) : List Row :=
  let limit := c.limit.getD 100
  if limit < 0 then rows else rows.take limit.toNat

end Criteria

/-- The first events that meet the criteria, ascending by id. -/
def select (log : Log) (c : Criteria) : Except LogError (List Event) :=
  events (c.take (log.rows.filter c.admits))

end Log

end EventStream
