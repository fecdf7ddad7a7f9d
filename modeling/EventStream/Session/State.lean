import EventStream.Server

/-! The state of a session: one server, the names under which its connections and sockets
are known, and the tasks that the session has started and not seen end. -/

namespace EventStream

/-- The far end of a connection's socket, with the frames that have come and have not been
read. -/
structure Socket where
  connection : ConnectionId
  inbox : List Frame := []

structure Session where
  server : Server
  /-- Replays that may run at a time. -/
  permits : Nat
  /-- Each name with the connection it was last given to. -/
  connections : List (String × ConnectionId) := []
  sockets : List (String × Socket) := []
  /-- Steps taken so far. -/
  steps : Nat := 0
  /-- Tasks whose end has not been reported, each with the step that started it. -/
  pending : List (Nat × TaskId) := []

namespace Session

/-- A migrated, empty log behind a hub without connections. -/
def new (capacity replays : Nat) (start : Instant) : Session where
  server := { log := .empty, hub := .new capacity replays start }
  permits := max 1 replays

/-- A session, unless it takes more permits than can be given. -/
def new? (capacity replays : Nat) (start : Instant) : Option Session :=
  if replays ≤ Hub.maxSize then some (new capacity replays start) else none

def connection? (s : Session) (name : String) : Option ConnectionId := s.connections.lookup name

def hasSocket (s : Session) (name : String) : Bool := (s.sockets.lookup name).isSome

def hub (s : Session) : Hub := s.server.hub

def onHub (s : Session) (f : Hub → Hub) : Session := { s with server := s.server.onHub f }

def onGate (s : Session) (f : Gate → Gate) : Session := { s with server := s.server.onGate f }

/-! ### What is at risk of chance -/

/-- The connections of unfinished replays, once for each. -/
def replaying (s : Session) : List ConnectionId := s.hub.unfinishedReplays.map (·.connection)

/-- More connections replay than permits exist, so some replay waits for one. -/
def isCrowded (s : Session) : Bool := s.permits < s.replaying.eraseDups.length

/-- Of several replays of one connection all but one wait. -/
def isQueued (s : Session) (c : ConnectionId) : Bool := 1 < s.replaying.count c

/-! ### Sockets -/

/-- The writer of a socket sends all that is queued; a cancelled connection's socket is
closed instead. -/
def pump (s : Session) : Session :=
  s.sockets.foldl (fun s (name, socket) =>
    let c := socket.connection
    if (s.hub.subscriber c).cancelled then s.onHub (·.disconnect c)
    else
      let (frames, outbound) := (s.hub.subscriber c).outbound.receive none
      { s.onHub fun h => h.setSubscriber c { h.subscriber c with outbound } with
        sockets := s.sockets.map fun (n, socket) =>
          if n = name then (n, { socket with inbox := socket.inbox ++ frames })
          else (n, socket) }) s

def settle (s : Session) : Session := { s with server := s.server.settle }.pump

/-- The frames of an inbox up to the first that ends a replay, and those after it. -/
def splitTerminal : List Frame → List Frame × List Frame
  | [] => ([], [])
  | f :: rest =>
    if f.isTerminal then ([f], rest)
    else
      let (answer, rest) := splitTerminal rest
      (f :: answer, rest)

/-- Reads frames of an inbox: those in the first part of what `split` makes of it. -/
def readSocket (s : Session) (name : String) (split : List Frame → List Frame × List Frame) :
    Session × List Frame :=
  match s.sockets.lookup name with
  | none => (s, [])
  | some socket =>
    let (frames, inbox) := split socket.inbox
    ({ s with
      sockets := s.sockets.map fun (n, socket) =>
        if n = name then (n, { socket with inbox }) else (n, socket) }, frames)

/-- A text from the client: a request to subscribe, or an error frame for what is none. -/
def dispatch (s : Session) (c : ConnectionId) (text : String) : Session :=
  if (s.hub.subscriber c).cancelled then s
  else
    match Subscription.decode text with
    | .ok request => s.onHub fun h => (h.subscribe c request).2
    | .error refusal =>
      s.onHub fun h => h.setSubscriber c ((h.subscriber c).push (.error refusal.message)).1

def dropSocket (s : Session) (name : String) : Session :=
  match s.sockets.lookup name with
  | none => s
  | some socket =>
    { s.onHub (·.disconnect socket.connection) with
      sockets := s.sockets.filter (·.1 ≠ name) }

end Session

end EventStream
