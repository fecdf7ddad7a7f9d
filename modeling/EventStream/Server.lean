import EventStream.Hub.Step
import EventStream.Log

/-! A server driven cooperatively: the event log, a gate before the hub's queries, and the
hub. One task runs until it ends or has to wait, then the next. -/

namespace EventStream

/-- What is to become of a query. -/
inductive Verdict where
  | pass
  | fail
  | crash
  deriving DecidableEq, Repr

/-- Stands between the hub and the log. A hold keeps back the answer of the next query that
is answered by the log, until it is released. -/
structure Gate where
  /-- Verdicts on the next queries; the queries after them pass. -/
  script : List Verdict := []
  reversed : Bool := false
  armed : List String := []
  held : List (String × TaskId) := []
  /-- Queries made so far. -/
  asked : Nat := 0

namespace Gate

/-- The log is read at once, also for an answer that is kept back. -/
def ask (g : Gate) (log : Log) (k : TaskId) (after : Instant) : Gate × Answer :=
  let verdict := g.script.headD .pass
  let g := { g with asked := g.asked + 1, script := g.script.tail }
  match verdict with
  | .fail => (g, .error (.log .invalidQuery))
  | .crash => (g, .error .aborted)
  | .pass =>
    match log.eventsAfter after with
    | .error e => (g, .error (.log e))
    | .ok events =>
      let answer := .ok (if g.reversed then events.reverse else events)
      match g.armed with
      | [] => (g, answer)
      | name :: armed => ({ g with armed, held := g.held ++ [(name, k)] }, answer)

def holds (g : Gate) (k : TaskId) : Bool := g.held.any (·.2 = k)

/-- Lets the oldest answer held under that name go. -/
def release? (g : Gate) (name : String) : Option Gate :=
  if g.held.any (·.1 = name) then some { g with held := g.held.eraseP (·.1 = name) } else none

end Gate

structure Server where
  log : Log
  gate : Gate := {}
  hub : Hub
  /-- For the next replays that could be dropped, whether they see their cancellation first. The
  replays after them do. -/
  draws : List Bool := []

namespace Server

/-- Whether the task can go on: it is about to query, or its hub lets it and no answer for
it is held. A replay whose connection is cancelled does not wait for its answer. -/
def canStep (s : Server) (k : TaskId) : Bool :=
  (s.hub.task k).question?.isSome ||
    (s.hub.canAdvance k && (!s.gate.holds k || s.hub.mayDrop k))

/-- An answer that is held back is not there yet, so the cancellation is seen first. -/
def cancelFirst (s : Server) (k : TaskId) : Bool := s.gate.holds k || s.draws.headD true

def step (s : Server) (k : TaskId) : Server :=
  match (s.hub.task k).question? with
  | some after =>
    let (gate, answer) := s.gate.ask s.log k after
    { s with gate, hub := s.hub.answer k answer }
  | none =>
    { s with
      draws := if s.hub.mayDrop k then s.draws.tail else s.draws
      hub := (s.hub.toss (s.cancelFirst k)).advance k }

/-- Runs task `k` as long as it can go on, then the first of the others that can. -/
def run : Nat → TaskId → Server → Server
  | 0, _, s => s
  | fuel + 1, k, s =>
    if s.canStep k then run fuel k (s.step k)
    else
      match (List.range s.hub.started).find? s.canStep with
      | some j => run fuel j (s.step j)
      | none => s

/-- The events in the log and in the hands of tasks. -/
def volume (s : Server) : Nat :=
  s.log.rows.length + ((s.hub.unfinished.map fun k => (s.hub.task k).load).foldl (· + ·) 0)

/-- More steps than the tasks in flight can make: each goes a few times over the events,
and for each event over the connections. -/
def stepBound (s : Server) : Nat :=
  (s.hub.started + 1) * (s.volume + 8) * (s.volume + 8) * (s.hub.opened + 8)

def onHub (s : Server) (f : Hub → Hub) : Server := { s with hub := f s.hub }

/-- Runs until every task has ended, is held, or waits in a line. -/
def settle (s : Server) : Server := (run s.stepBound s.hub.started s).onHub Hub.compact

def onGate (s : Server) (f : Gate → Gate) : Server := { s with gate := f s.gate }

/-- Starts a tick and settles, until a tick has not failed. -/
def poll : Nat → Server → Server
  | 0, s => s
  | fuel + 1, s =>
    let (k, hub) := s.hub.startTick
    let s := { s with hub }.settle
    match s.hub.task k with
    | .tick (.ended (.failed _)) => poll fuel s
    | _ => s

/-- The live poller's life around one append: it starts at `clock`, polls, polls again after
the append, and ends with the hub. -/
def runPoller (s : Server) (clock : Instant) (drafts : List Draft) :
    Except LogError (List Int × Server) := do
  let tries (s : Server) := s.gate.script.length + 1
  let s := s.onHub (·.mapCheckpoint (·.reset clock))
  let s := s.poll (tries s)
  let (ids, log) ← drafts.foldlM (fun (ids, log) d => do
    let (id, log) ← Log.append log d
    return (ids ++ [id], log)) (([] : List Int), s.log)
  let s := { s with log }
  let s := s.poll (tries s)
  return (ids, s.onHub Hub.shutdown)

end Server

end EventStream
