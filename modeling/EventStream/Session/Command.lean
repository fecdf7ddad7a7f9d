import EventStream.Http
import EventStream.Server

/-! What can be asked of a server in a session, and the replies. -/

namespace EventStream

namespace Session

inductive Command where
  | append (draft : Draft)
  | insertRow (id : Option Int) (row : Row)
  | deleteRow (id : Int)
  | queryAfter (cursor : Instant)
  | select (criteria : Log.Criteria)
  | script (verdicts : List Verdict)
  | reverse (on : Bool)
  | countQueries
  | hold (name : String)
  | release (name : String)
  | connect (name : String)
  | subscribe (c : ConnectionId) (lastSeen : Option Instant)
  | tick
  | receive (c : ConnectionId) (limit : Option Nat)
  | closeReceiver (c : ConnectionId)
  | sendFrame (c : ConnectionId) (text : String)
  | enqueueLive (c : ConnectionId) (id : Int) (text : String)
  | disconnect (c : ConnectionId)
  | register (c : ConnectionId)
  | deregister (c : ConnectionId)
  | isRegistered (c : ConnectionId)
  | registry
  | resetCursor (time : Instant)
  | advanceCursor (time : Instant)
  | announce (id : Int)
  | markBroadcast (id : Int)
  | shutdown
  | isShutDown
  | runPoller (drafts : List Draft)
  | request (method : String) (target : Http.Target)
  | openSocket (name : String)
  | sendText (socket : String) (text : String)
  /-- A ping or a binary message, which is not looked at. -/
  | sendOther (socket : String)
  | drainSocket (socket : String)
  | closeSocket (socket : String)
  | endSocket (socket : String)

/-- Whether a command opens a connection. -/
def Command.isOpening : Command → Bool
  | connect _ => true
  | openSocket _ => true
  | _ => false

/-- What is registered: how many connections, how many of them live, and the names of those
live. -/
structure Registry where
  size : Nat
  liveCount : Nat
  live : List String
  deriving DecidableEq, Repr

inductive Reply where
  | none
  | ok
  /-- The command has not been carried out, since its outcome would be left to chance. -/
  | skipped
  | flag (value : Bool)
  | number (value : Int)
  | events (events : List Event)
  | frames (frames : List Frame)
  | registry (registry : Registry)
  | polled (ids : List Int)
  | response (response : Http.Response)
  | ended (closeFrame : Bool)

inductive Failure where
  | log (error : LogError)
  | notHeld
  | noReceiver
  | refused (refusal : Outbound.Refusal)
  deriving DecidableEq, Repr

end Session

end EventStream
