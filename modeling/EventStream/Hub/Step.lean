import EventStream.Hub

/-! The steps of tasks. A step takes a task from one point to the next; all interleavings
of these steps are runs of the hub. -/

namespace EventStream.Hub

/-- Whether a replay waits while its connection is cancelled. -/
def isCancelled (h : Hub) (r : Replay) : Bool :=
  r.stage.isWaiting && (h.subscriber r.connection).cancelled

/-- Whether the replay of task `k` need not wait: its lock, its permit or its answer is there. -/
def isServed (h : Hub) (k : TaskId) (r : Replay) : Bool :=
  match r.stage with
  | .arriving => (h.lockLine r.connection).isEmpty
  | .awaitingLock => (h.lockLine r.connection).head? = some k
  | .awaitingPermit => h.permitLine.head? = some k && 0 < h.permits
  | .asking _ => false
  | .ended => false
  | _ => true

/-- Whether a replay is dropped rather than goes on. If it need not wait, it may see that before
it sees that its connection is cancelled. -/
def isDropped (h : Hub) (k : TaskId) (r : Replay) : Bool :=
  h.isCancelled r && (h.cancelFirst || !h.isServed k r)

/-- Whether the task is a replay that waits while its connection is cancelled. -/
def mayDrop (h : Hub) (k : TaskId) : Bool :=
  match h.task k with
  | .replay r => h.isCancelled r
  | .tick _ => false

/-- Whether the task is a replay that will be dropped. -/
def drops (h : Hub) (k : TaskId) : Bool :=
  match h.task k with
  | .replay r => h.isDropped k r
  | .tick _ => false

/-- Neither ended, nor waiting for others in a line, nor for the answer to a query that is
still to be made. -/
def canAdvance (h : Hub) (k : TaskId) : Bool :=
  match h.task k with
  | .replay r => h.isCancelled r || h.isServed k r || (r.stage matches .arriving)
  | .tick (.asking _) => false
  | .tick (.ended _) => false
  | .tick _ => true

/-! ### Replays -/

def setStage (h : Hub) (k : TaskId) (r : Replay) (stage : Replay.Stage) : Hub :=
  h.setTask k (.replay { r with stage })

/-- Ends a replay in any way: it gives back its permit and its lock, or leaves the lines. -/
def finish (h : Hub) (k : TaskId) (r : Replay) : Hub :=
  { h with
    permits := if r.stage.holdsPermit then h.permits + 1 else h.permits
    permitLine := h.permitLine.filter (· ≠ k)
    lockLine := update h.lockLine r.connection ((h.lockLine r.connection).filter (· ≠ k)) }
  |>.setStage k r .ended

/-- Queues the first of the events left, or settles what comes after the last. -/
def deliver (h : Hub) (k : TaskId) (r : Replay) (purpose : Replay.Purpose)
    (left : List Event) (newest : Option Instant) : Hub :=
  let s := h.subscriber r.connection
  match left with
  | e :: rest =>
    let next (s : Subscriber) : Hub :=
      (h.setSubscriber r.connection s).setStage k r
        (.delivering purpose rest (some (Replay.later newest e.createdAt)))
    match Message.ofEvent? e with
    | none => next (s.skipPast e.id)
    | some m =>
      match s.enqueueReplayed e.id (.event m) with
      | (s, .ok _) => next s
      | (s, .error _) =>
        let h := h.setSubscriber r.connection s
        match purpose with
        | .history previous .. => h.setStage k r (.reporting previous)
        | .gap .. => h.finish k r
  | [] =>
    match purpose with
    | .history _ cursor covered =>
      let h := h.setSubscriber r.connection (s.skipPast covered)
      match Replay.floorBelow? newest cursor with
      | some floor => h.setStage k r (.settling cursor floor)
      | none => h.finish k r
    | .gap cursor floor delivered _ =>
      if delivered < s.lastEventId then
        match Replay.floorBelow? newest cursor with
        | some floor => h.setStage k r (.reconciling cursor floor)
        | none => h.finish k r
      else if cursor < floor then h.setStage k r (.reconciling cursor cursor)
      else h.setStage k r (.confirming .force)

def advanceReplay (h : Hub) (k : TaskId) (r : Replay) : Hub :=
  let c := r.connection
  let s := h.subscriber c
  let channel := r.request.channel
  let confirmation := Frame.subscriptionConfirmed channel
  match r.stage with
  | .arriving =>
    { h with lockLine := update h.lockLine c (h.lockLine c ++ [k]) }.setStage k r .awaitingLock
  | .awaitingLock =>
    { h with permitLine := h.permitLine ++ [k] }.setStage k r .awaitingPermit
  | .awaitingPermit =>
    { h with permits := h.permits - 1, permitLine := h.permitLine.tail }.setStage k r .admitted
  | .admitted =>
    (h.setSubscriber c (s.beginReplay channel)).setStage k r
      (match r.request.lastSeen with
      | some cursor => .opening (s.previous channel) cursor
      | none => .confirming .fresh)
  | .opening previous cursor =>
    h.setStage k r (.asking (.history previous cursor h.checkpoint.announced))
  | .asking _ => h
  | .answered purpose (.ok events) =>
    h.setStage k r (.delivering purpose (purpose.wanted events) none)
  | .answered (.history previous ..) (.error _) => h.setStage k r (.reporting previous)
  | .answered (.gap ..) (.error _) => h.setStage k r (.confirming .force)
  | .delivering purpose left newest => h.deliver k r purpose left newest
  | .settling cursor floor =>
    (h.setSubscriber c (s.withPhase .reconciling)).setStage k r (.reconciling cursor floor)
  | .reconciling cursor floor =>
    match s.handOver h.checkpoint.announced .reconciled confirmation with
    | (s, .ok (.behind highWater)) =>
      (h.setSubscriber c s).setStage k r (.lagging cursor floor highWater)
    | (s, _) => (h.setSubscriber c s).finish k r
  | .lagging cursor floor highWater =>
    h.setStage k r (.asking (.gap cursor floor s.lastEventId highWater))
  | .confirming mode =>
    (h.setSubscriber c (s.handOver h.checkpoint.announced mode confirmation).1).finish k r
  | .reporting previous =>
    (h.setSubscriber c (s.push .historyFailed).1).setStage k r (.aborting previous)
  | .aborting previous =>
    (h.setSubscriber c (s.abortReplay channel previous)).finish k r
  | .ended => h

/-! ### Ticks -/

/-- The latest time in a batch. -/
def newest? (batch : List Event) : Option Instant :=
  batch.foldl (fun newest e => some (Replay.later newest e.createdAt)) none

def setTick (h : Hub) (k : TaskId) (stage : Tick.Stage) : Hub := h.setTask k (.tick stage)

/-- Moves the cursor past the batch, whose events have all been offered. -/
def close (h : Hub) (k : TaskId) (batch : List Event) : Hub :=
  match newest? batch with
  | none => h.setTick k (.ended (.polled batch.length))
  | some newest =>
    match newest.next? with
    | some after =>
      (h.mapCheckpoint (·.advanceTo after)).setTick k (.ended (.polled batch.length))
    | none => h.setTick k (.ended .overflowed)

def advanceTick (h : Hub) (k : TaskId) : Tick.Stage → Hub
  | .starting => h.setTick k (.asking h.checkpoint.after)
  | .asking _ => h
  | .answered (.error e) => h.setTick k (.ended (.failed e))
  | .answered (.ok []) => h.setTick k (.ended (.polled 0))
  | .answered (.ok events) => h.setTick k (.announcing (Event.sortById events))
  | .announcing batch =>
    (match batch.getLast? with
      | some last => h.mapCheckpoint (·.announce last.id)
      | none => h).setTick k (.picking batch h.registry [])
  | .picking batch (c :: unseen) live =>
    let live := if (h.subscriber c).isLiveOn .systemEvents then live ++ [c] else live
    h.setTick k (.picking batch unseen live)
  | .picking batch [] live =>
    h.setTick k (.broadcasting batch batch live (Tick.targets batch live))
  | .broadcasting batch (e :: rest) live (c :: targets) =>
    (match Message.ofEvent? e with
      | some m => h.setSubscriber c ((h.subscriber c).enqueueLive e.id (.event m)).1
      | none => h).setTick k (.broadcasting batch (e :: rest) live targets)
  | .broadcasting batch (e :: rest) live [] =>
    (h.mapCheckpoint (·.markBroadcast e.id)).setTick k
      (.broadcasting batch rest live (Tick.targets rest live))
  | .broadcasting batch [] _ _ => h.close k batch
  | .ended _ => h

/-! ### One step -/

/-- The next step of a task that can advance; other tasks stay where they are. -/
def advance (h : Hub) (k : TaskId) : Hub :=
  if h.canAdvance k then
    match h.task k with
    | .replay r => if h.isDropped k r then h.finish k r else h.advanceReplay k r
    | .tick stage => h.advanceTick k stage
  else h

/-- The log's answer to a task's query. -/
def answer (h : Hub) (k : TaskId) (a : Answer) : Hub :=
  match h.task k with
  | .replay r =>
    match r.stage with
    | .asking purpose => h.setStage k r (.answered purpose a)
    | _ => h
  | .tick (.asking _) => h.setTick k (.answered a)
  | .tick _ => h

end EventStream.Hub
