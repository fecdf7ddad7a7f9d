import EventStream.Checkpoint
import EventStream.Task

/-! The stream hub: connections, the registry, the checkpoint, the lines for replay locks
and permits, and the tasks in flight. Connections and tasks are numbered in the order in
which they came. -/

namespace EventStream

/-- `f` with the value at `i` replaced. -/
def update {α : Type} (f : Nat → α) (i : Nat) (a : α) : Nat → α :=
  fun j => if j = i then a else f j

@[simp] theorem update_self {α : Type} (f : Nat → α) (i : Nat) (a : α) :
    update f i a i = a := by
  simp [update]

theorem update_of_ne {α : Type} (f : Nat → α) {i j : Nat} (a : α) (h : j ≠ i) :
    update f i a j = f j := by
  simp [update, h]

/-- `f`, as far as a table of its first values goes from the table. -/
def tabled {α : Type} (table : Array α) (f : Nat → α) (i : Nat) : α :=
  if h : i < table.size then table[i] else f i

@[simp] theorem tabled_ofFn {α : Type} (n : Nat) (f : Nat → α) :
    tabled (Array.ofFn fun i : Fin n => f i) f = f := by
  funext i
  simp [tabled]

structure Hub where
  /-- Frames that each connection's queue holds. -/
  capacity : Nat
  checkpoint : Checkpoint
  /-- Connections opened so far. -/
  opened : Nat := 0
  subscriber : ConnectionId → Subscriber := fun _ => { outbound := { capacity := 0 } }
  registry : List ConnectionId := []
  /-- Tasks started so far. -/
  started : Nat := 0
  task : TaskId → Task := fun _ => .tick (.ended (.polled 0))
  /-- The line for each connection's replay lock; its head holds the lock or takes it next. -/
  lockLine : ConnectionId → List TaskId := fun _ => []
  /-- Free permits. -/
  permits : Nat
  permitLine : List TaskId := []
  isShutDown : Bool := false
  /-- Which a replay sees first when its connection has been cancelled and what it waits for is
  there as well: the cancellation, or what it waits for. Chance decides, each time anew. -/
  cancelFirst : Bool := true

namespace Hub

/-- The most frames that a queue can hold, and the most permits that can be given. -/
def maxSize : Nat := Nat.pow 2 61 - 1

/-- A hub with room for `replays` replays at a time; both sizes are at least 1. -/
def new (capacity replays : Nat) (after : Instant) : Hub :=
  { capacity := max 1 capacity, permits := max 1 replays, checkpoint := { after } }

def setSubscriber (h : Hub) (c : ConnectionId) (s : Subscriber) : Hub :=
  { h with subscriber := update h.subscriber c s }

def setTask (h : Hub) (k : TaskId) (t : Task) : Hub :=
  { h with task := update h.task k t }

def mapCheckpoint (h : Hub) (f : Checkpoint → Checkpoint) : Hub :=
  { h with checkpoint := f h.checkpoint }

def toss (h : Hub) (cancelFirst : Bool) : Hub := { h with cancelFirst }

/-! ### Connections -/

def register (h : Hub) (c : ConnectionId) : Hub :=
  { h with registry := if h.registry.contains c then h.registry else h.registry ++ [c] }

def deregister (h : Hub) (c : ConnectionId) : Hub :=
  { h with registry := h.registry.filter (· ≠ c) }

/-- Opens and registers a connection. After the shutdown it is born cancelled. -/
def connect (h : Hub) : ConnectionId × Hub :=
  let s : Subscriber := { outbound := { capacity := h.capacity }, cancelled := h.isShutDown }
  (h.opened, { h.setSubscriber h.opened s with opened := h.opened + 1 }.register h.opened)

def disconnect (h : Hub) (c : ConnectionId) : Hub :=
  (h.setSubscriber c (h.subscriber c).cancel).deregister c

/-- The registered connections that are live. -/
def liveConnections (h : Hub) : List ConnectionId :=
  h.registry.filter fun c => (h.subscriber c).isLiveOn .systemEvents

/-- Cancels every connection, also those to come. -/
def shutdown (h : Hub) : Hub :=
  { h with isShutDown := true, subscriber := fun c => (h.subscriber c).cancel }

/-! ### Tasks -/

def spawn (h : Hub) (t : Task) : TaskId × Hub :=
  (h.started, { h.setTask h.started t with started := h.started + 1 })

def subscribe (h : Hub) (c : ConnectionId) (request : Subscription) : TaskId × Hub :=
  h.spawn (.replay { connection := c, request })

def startTick (h : Hub) : TaskId × Hub := h.spawn (.tick .starting)

/-- The same hub. Values that many updates have left behind them are written out, so that
each is found at once. -/
def compact (h : Hub) : Hub :=
  { h with
    subscriber := tabled (Array.ofFn fun c : Fin h.opened => h.subscriber c) h.subscriber
    task := tabled (Array.ofFn fun k : Fin h.started => h.task k) h.task
    lockLine := tabled (Array.ofFn fun c : Fin h.opened => h.lockLine c) h.lockLine }

@[simp] theorem compact_eq (h : Hub) : h.compact = h := by
  simp [compact]

/-- Tasks that have not ended, in the order of their start. -/
def unfinished (h : Hub) : List TaskId :=
  (List.range h.started).filter fun k => !(h.task k).isEnded

def unfinishedReplays (h : Hub) : List Replay :=
  h.unfinished.filterMap fun k =>
    match h.task k with
    | .replay r => some r
    | .tick _ => none

end Hub

end EventStream
