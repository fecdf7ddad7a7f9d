import EventStream.Instant

/-! The position of the live poller in the event log. -/

namespace EventStream

/-- `after` is the cursor of the next tick. A batch's greatest id is announced before the
live subscribers are picked, and an id counts as broadcast once its event has been offered
to each of them. -/
structure Checkpoint where
  after : Instant
  announced : Int := 0
  broadcast : Int := 0
  deriving DecidableEq

namespace Checkpoint

/-- Moves the cursor, never backwards. -/
def advanceTo (c : Checkpoint) (t : Instant) : Checkpoint :=
  if c.after < t then { c with after := t } else c

/-- Moves the cursor, wherever it stands. -/
def reset (c : Checkpoint) (t : Instant) : Checkpoint := { c with after := t }

def announce (c : Checkpoint) (id : Int) : Checkpoint :=
  { c with announced := max c.announced id }

def markBroadcast (c : Checkpoint) (id : Int) : Checkpoint :=
  { c with broadcast := max c.broadcast id }

end Checkpoint

end EventStream
