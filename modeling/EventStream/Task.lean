import EventStream.Log.Row
import EventStream.Subscriber
import EventStream.Subscription

/-! The hub's tasks, replays and ticks, as the points at which each can stand. Between two
points a task does one thing that no other task can come into: one call under a
subscriber's lock, one access to the checkpoint, one move in a waiting line. -/

namespace EventStream

abbrev ConnectionId := Nat
abbrev TaskId := Nat

/-- Why a query brought no events. -/
inductive QueryFailure where
  | log (error : LogError)
  /-- The query's own task broke off. -/
  | aborted
  deriving DecidableEq, Repr

abbrev Answer := Except QueryFailure (List Event)

namespace Replay

/-- What a replay queries the log for. -/
inductive Purpose where
  /-- The history after `cursor`; what was announced up to `covered` is certain to be in
  the log, so the answer holds it or it is older than the cursor. -/
  | history (previous : Subscriber.Previous) (cursor : Instant) (covered : Int)
  /-- Events of ids above `delivered` up to `highWater`, from `floor` on. -/
  | gap (cursor floor : Instant) (delivered highWater : Int)
  deriving DecidableEq

namespace Purpose

/-- Events created after this instant are asked for. -/
def after : Purpose → Instant
  | history _ cursor _ => cursor
  | gap _ floor _ _ => floor

def cursor : Purpose → Instant
  | history _ cursor _ => cursor
  | gap cursor _ _ _ => cursor

/-- The events of an answer that are to be delivered. -/
def wanted : Purpose → List Event → List Event
  | history .., events => events
  | gap _ _ delivered highWater, events =>
    events.filter fun e => delivered < e.id ∧ e.id ≤ highWater

end Purpose

inductive Stage where
  /-- Not yet in line for its connection's replay lock. -/
  | arriving
  /-- In line for the lock. -/
  | awaitingLock
  /-- Holds the lock and stands in line for a permit. -/
  | awaitingPermit
  /-- Holds lock and permit, here and in all stages below but the last. -/
  | admitted
  /-- About to read what has been announced. -/
  | opening (previous : Subscriber.Previous) (cursor : Instant)
  | asking (purpose : Purpose)
  /-- The query has been answered; the answer is on its way. -/
  | answered (purpose : Purpose) (answer : Answer)
  /-- Queueing events one by one; `newest` is the latest time among those seen. -/
  | delivering (purpose : Purpose) (left : List Event) (newest : Option Instant)
  /-- About to change to reconciling. -/
  | settling (cursor floor : Instant)
  /-- About to hand over if nothing is missing. -/
  | reconciling (cursor floor : Instant)
  /-- About to fill the gap up to `highWater`. -/
  | lagging (cursor floor : Instant) (highWater : Int)
  /-- About to hand over whatever is missing. -/
  | confirming (mode : Subscriber.Handover)
  /-- About to tell the client that its history failed. -/
  | reporting (previous : Subscriber.Previous)
  /-- About to restore what was before. -/
  | aborting (previous : Subscriber.Previous)
  | ended

namespace Stage

def isEnded : Stage → Bool
  | ended => true
  | _ => false

/-- The stages in which a replay waits, and so may notice that its connection is cancelled. -/
def isWaiting : Stage → Bool
  | arriving => true
  | awaitingLock => true
  | awaitingPermit => true
  | answered .. => true
  | _ => false

def holdsLock : Stage → Bool
  | arriving => false
  | awaitingLock => false
  | ended => false
  | _ => true

def holdsPermit : Stage → Bool
  | arriving => false
  | awaitingLock => false
  | awaitingPermit => false
  | ended => false
  | _ => true

end Stage

/-- The cursor of the next gap query: just below the newest time seen, so that events of
that time come again, but not before `cursor`. Nothing comes before the first instant. -/
def floorBelow? (newest : Option Instant) (cursor : Instant) : Option Instant :=
  match newest with
  | none => some cursor
  | some t => t.prev?.map (max · cursor)

def later (newest : Option Instant) (t : Instant) : Instant :=
  newest.elim t (max · t)

end Replay

/-- A replay serves one subscription of one connection. -/
structure Replay where
  connection : ConnectionId
  request : Subscription
  stage : Replay.Stage := .arriving

namespace Tick

inductive Outcome where
  /-- The batch had that many events. -/
  | polled (count : Nat)
  | failed (failure : QueryFailure)
  /-- The cursor had no instant to move to. -/
  | overflowed
  deriving DecidableEq

inductive Stage where
  /-- About to read the cursor. -/
  | starting
  | asking (after : Instant)
  | answered (answer : Answer)
  /-- About to announce the batch's greatest id. -/
  | announcing (batch : List Event)
  /-- Picking the live subscribers out of the registered connections `unseen`. -/
  | picking (batch : List Event) (unseen live : List ConnectionId)
  /-- Offering the first event of `left` to the connections `targets`. -/
  | broadcasting (batch left : List Event) (live targets : List ConnectionId)
  | ended (outcome : Outcome)

/-- An event that makes no frame is offered to nobody. -/
def targets (left : List Event) (live : List ConnectionId) : List ConnectionId :=
  match left with
  | e :: _ => if (Message.ofEvent? e).isSome then live else []
  | [] => []

end Tick

inductive Task where
  | replay (replay : Replay)
  | tick (stage : Tick.Stage)

namespace Task

def isEnded : Task → Bool
  | replay r => r.stage.isEnded
  | tick (.ended _) => true
  | tick _ => false

/-- How many events the task has in hand. -/
def load : Task → Nat
  | replay { stage := .answered _ (.ok events), .. } => events.length
  | replay { stage := .delivering _ left _, .. } => left.length
  | tick (.answered (.ok events)) => events.length
  | tick (.announcing batch) => batch.length
  | tick (.picking batch ..) => batch.length
  | tick (.broadcasting batch ..) => batch.length
  | _ => 0

/-- The cursor of the query that the task is about to make. -/
def question? : Task → Option Instant
  | replay { stage := .asking purpose, .. } => some purpose.after
  | tick (.asking after) => some after
  | _ => none

end Task

end EventStream
