import EventStream.Session.Command
import EventStream.Session.State

/-! Sessions with one server: commands in order, each settled before the next. -/

namespace EventStream.Session

/-! ### Commands -/

/-- Counts a task that the hub has started among those to report. -/
def spawn (s : Session) (start : Hub → TaskId × Hub) : Session :=
  let (k, hub) := start s.hub
  { s.onHub fun _ => hub with pending := s.pending ++ [(s.steps, k)] }

def registrySize (s : Session) : Nat := s.hub.registry.length

def registryReport (s : Session) : Registry :=
  let live := s.hub.liveConnections
  let named := s.connections.filter fun (_, c) => live.contains c
  { size := s.registrySize
    liveCount := live.length
    live := (named.map (·.1)).mergeSort (· ≤ ·) }

/-- Carries out a change of one subscriber that may be refused. -/
def onSubscriber {α : Type} (s : Session) (c : ConnectionId)
    (f : Subscriber → Subscriber × Except Outbound.Refusal α) (reply : α → Reply) :
    Session × Except Failure Reply :=
  let (subscriber, answer) := f (s.hub.subscriber c)
  (s.onHub (·.setSubscriber c subscriber),
    match answer with
    | .ok a => .ok (reply a)
    | .error e => .error (.refused e))

/-- A change of the log that may fail. -/
def onLog {α : Type} (s : Session) (answer : Except LogError (α × Log)) (reply : α → Reply) :
    Session × Except Failure Reply :=
  match answer with
  | .ok (a, log) => ({ s with server := { s.server with log } }, .ok (reply a))
  | .error e => (s, .error (.log e))

def found (answer : Except LogError (List Event)) : Except Failure Reply :=
  match answer with
  | .ok events => .ok (.events events)
  | .error e => .error (.log e)

/-- Gives a name to a new connection; the one that had it loses its receiver. -/
def connect (s : Session) (name : String) : Session :=
  let s := match s.connection? name with
    | none => s
    | some c => s.onHub fun h =>
        h.setSubscriber c { h.subscriber c with outbound := (h.subscriber c).outbound.close }
  let (c, hub) := s.hub.connect
  { s.onHub fun _ => hub with
    connections := (s.connections.filter (·.1 ≠ name)) ++ [(name, c)] }

def openSocket (s : Session) (name : String) : Session :=
  let s := s.dropSocket name
  let (connection, hub) := s.hub.connect
  { s.onHub fun _ => hub with sockets := s.sockets ++ [(name, { connection })] }

/-- The instant at which a session's pollers start; what is appended under them comes later. -/
def clock : Instant := ⟨1767225600, 0, by decide⟩

def perform (s : Session) : Command → Session × Except Failure Reply
  | .append draft => s.onLog (s.server.log.append draft) .number
  | .insertRow id row => s.onLog (s.server.log.insertRow id row) .number
  | .deleteRow id =>
    let (n, log) := s.server.log.delete id
    s.onLog (.ok (n, log)) fun n => .number n
  | .queryAfter cursor => (s, found (s.server.log.eventsAfter cursor))
  | .select criteria => (s, found (s.server.log.select criteria))
  | .script verdicts => (s.onGate fun g => { g with script := verdicts }, .ok .none)
  | .reverse on => (s.onGate fun g => { g with reversed := on }, .ok .none)
  | .countQueries => (s, .ok (.number s.server.gate.asked))
  | .hold name => (s.onGate fun g => { g with armed := g.armed ++ [name] }, .ok .none)
  | .release name =>
    match s.server.gate.release? name with
    | some gate => (s.onGate fun _ => gate, .ok .none)
    | none => (s, .error .notHeld)
  | .connect name =>
    let s := s.connect name
    (s, .ok (.number s.registrySize))
  | .subscribe c lastSeen =>
    if (s.hub.subscriber c).cancelled then (s, .ok .skipped)
    else (s.spawn (·.subscribe c { channel := .systemEvents, lastSeen }), .ok .none)
  | .tick => (s.spawn Hub.startTick, .ok .none)
  | .receive c limit =>
    let subscriber := s.hub.subscriber c
    if subscriber.outbound.isOpen then
      let (frames, outbound) := subscriber.outbound.receive limit
      (s.onHub (·.setSubscriber c { subscriber with outbound }), .ok (.frames frames))
    else (s, .error .noReceiver)
  | .closeReceiver c =>
    (s.onHub fun h =>
      h.setSubscriber c { h.subscriber c with outbound := (h.subscriber c).outbound.close },
      .ok .none)
  | .sendFrame c text => s.onSubscriber c (·.push (.verbatim text)) fun _ => .ok
  | .enqueueLive c id text => s.onSubscriber c (·.enqueueLive id (.verbatim text)) .flag
  | .disconnect c =>
    if s.isCrowded || s.isQueued c then (s, .ok .skipped)
    else
      let s := s.onHub (·.disconnect c)
      (s, .ok (.number s.registrySize))
  | .register c =>
    let s := s.onHub (·.register c)
    (s, .ok (.number s.registrySize))
  | .deregister c =>
    (s.onHub (·.deregister c), .ok (.flag (s.hub.registry.contains c)))
  | .isRegistered c => (s, .ok (.flag (s.hub.registry.contains c)))
  | .registry => (s, .ok (.registry s.registryReport))
  | .resetCursor time => (s.onHub (·.mapCheckpoint (·.reset time)), .ok .none)
  | .advanceCursor time => (s.onHub (·.mapCheckpoint (·.advanceTo time)), .ok .none)
  | .announce id => (s.onHub (·.mapCheckpoint (·.announce id)), .ok .none)
  | .markBroadcast id => (s.onHub (·.mapCheckpoint (·.markBroadcast id)), .ok .none)
  | .shutdown =>
    if s.isCrowded || s.replaying.any s.isQueued then (s, .ok .skipped)
    else (s.onHub Hub.shutdown, .ok (.flag true))
  | .isShutDown => (s, .ok (.flag s.hub.isShutDown))
  | .runPoller drafts =>
    if drafts.isEmpty || !s.hub.unfinished.isEmpty || s.hub.isShutDown then (s, .ok .skipped)
    else
      match s.server.runPoller clock drafts with
      | .ok (ids, server) => ({ s with server }, .ok (.polled ids))
      | .error e => (s, .error (.log e))
  | .request method target =>
    (s, .ok (.response (Http.respond s.server.log method target)))
  | .openSocket name =>
    let s := s.openSocket name
    (s, .ok (.number s.registrySize))
  | .sendText name text =>
    match s.sockets.lookup name with
    | none => (s, .ok (.frames []))
    | some socket =>
      let (s, frames) := (s.dispatch socket.connection text).settle.readSocket name splitTerminal
      (s, .ok (.frames frames))
  | .sendOther _ => (s, .ok .none)
  | .drainSocket name =>
    let (s, frames) := s.readSocket name fun inbox => (inbox, [])
    (s, .ok (.frames frames))
  | .closeSocket name =>
    let s := s.dropSocket name
    (s, .ok (.number s.registrySize))
  | .endSocket name =>
    let closed := (s.sockets.lookup name).all fun socket =>
      (s.hub.subscriber socket.connection).cancelled
    (s.dropSocket name, .ok (.ended closed))

/-- Carries out a command. The session breaks down where a connection is to be opened whose
queue cannot be made. -/
def perform? (s : Session) (c : Command) : Option (Session × Except Failure Reply) :=
  if c.isOpening && Hub.maxSize < s.hub.capacity then none else some (s.perform c)

/-! ### Reports -/

/-- What is seen of the server after a step. -/
structure Report where
  /-- Tasks that have ended since the step before, each with the step that started it. -/
  done : List (Nat × Task)
  held : List String
  unfinished : List Nat
  checkpoint : Checkpoint
  subscribers : List (String × Subscriber)

/-- Ends a step: everything that can go on does, and what has come of it is reported. -/
def conclude (s : Session) : Session × Report :=
  let s := s.settle
  let ended (t : Nat × TaskId) : Bool := (s.hub.task t.2).isEnded
  ({ s with steps := s.steps + 1, pending := s.pending.filter (!ended ·) },
    { done := (s.pending.filter ended).map fun (i, k) => (i, s.hub.task k)
      held := s.server.gate.held.map (·.1)
      unfinished := (s.pending.filter (!ended ·)).map (·.1)
      checkpoint := s.hub.checkpoint
      subscribers := s.connections.map fun (name, c) => (name, s.hub.subscriber c) })

end EventStream.Session
