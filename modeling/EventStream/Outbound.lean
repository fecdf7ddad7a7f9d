import EventStream.Frame

/-! The bounded queue of frames between the hub and the writer of one connection. -/

namespace EventStream

/-- Every frame ever accepted, oldest first, and how many of them have been received. -/
structure Outbound where
  capacity : Nat
  accepted : List Frame := []
  received : Nat := 0
  isOpen : Bool := true

namespace Outbound

/-- Why a frame is not accepted. -/
inductive Refusal where
  | queueFull
  | closed
  deriving DecidableEq, Repr

def Refusal.message : Refusal → String
  | queueFull => "outbound queue full"
  | closed => "connection closed"

/-- The frames waiting to be received. -/
def pending (q : Outbound) : List Frame := q.accepted.drop q.received

def offer (q : Outbound) (f : Frame) : Except Refusal Outbound :=
  if !q.isOpen then .error .closed
  else if q.pending.length < q.capacity then .ok { q with accepted := q.accepted ++ [f] }
  else .error .queueFull

/-- Receives the oldest frames, at most `limit` if there is a limit. -/
def receive (q : Outbound) (limit : Option Nat) : List Frame × Outbound :=
  let frames := limit.elim q.pending q.pending.take
  (frames, { q with received := q.received + frames.length })

/-- Gives up the receiving end, with what waits there. -/
def close (q : Outbound) : Outbound :=
  { q with isOpen := false, received := q.accepted.length }

end Outbound

end EventStream
