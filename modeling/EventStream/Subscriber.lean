import EventStream.Outbound

/-! One subscriber's state and the gate before its queue. Events pass the gate only under
ids above the last one queued, whichever way they come. -/

namespace EventStream

inductive Phase where
  | idle
  /-- History is on its way. -/
  | replaying
  /-- History has been queued; what was announced meanwhile follows. -/
  | reconciling
  | live
  deriving DecidableEq, Repr

namespace Phase

/-- Live events are withheld in these phases. -/
def isReplaying : Phase → Bool
  | replaying => true
  | reconciling => true
  | _ => false

end Phase

structure Subscriber where
  channels : List Channel := []
  phase : Phase := .idle
  /-- The greatest id of an event that is queued or counts as handled. -/
  lastEventId : Int := 0
  outbound : Outbound
  cancelled : Bool := false

namespace Subscriber

/-- How a replay asks to go live. -/
inductive Handover where
  /-- Without history: what has been announced counts as handled. -/
  | fresh
  /-- Only when everything announced has been handled. -/
  | reconciled
  | force
  deriving DecidableEq, Repr

/-- What came of it. -/
inductive Standing where
  | live
  /-- Events up to `highWater` have been announced that are not handled yet. -/
  | behind (highWater : Int)
  deriving DecidableEq, Repr

/-- Phase and subscription before a replay began. -/
structure Previous where
  phase : Phase
  subscribed : Bool
  deriving DecidableEq, Repr

def isSubscribed (s : Subscriber) (channel : Channel) : Bool := s.channels.contains channel

/-- Subscribed and not replaying. -/
def isLiveOn (s : Subscriber) (channel : Channel) : Bool :=
  s.isSubscribed channel && !s.phase.isReplaying

def cancel (s : Subscriber) : Subscriber := { s with cancelled := true }

def previous (s : Subscriber) (channel : Channel) : Previous :=
  ⟨s.phase, s.isSubscribed channel⟩

/-- Subscribes and starts to replay. -/
def beginReplay (s : Subscriber) (channel : Channel) : Subscriber :=
  { s with channels := s.channels.insert channel, phase := .replaying }

/-- Undoes `beginReplay`. -/
def abortReplay (s : Subscriber) (channel : Channel) (previous : Previous) : Subscriber :=
  { s with
    channels := if previous.subscribed then s.channels else s.channels.erase channel
    phase := if previous.phase.isReplaying then .idle else previous.phase }

def withPhase (s : Subscriber) (phase : Phase) : Subscriber := { s with phase }

/-- Counts the events up to `id` as handled. -/
def skipPast (s : Subscriber) (id : Int) : Subscriber :=
  { s with lastEventId := max s.lastEventId id }

/-! ### Queueing frames -/

/-- A frame that finds the queue full cancels the connection. -/
def push (s : Subscriber) (f : Frame) : Subscriber × Except Outbound.Refusal Unit :=
  match s.outbound.offer f with
  | .ok q => ({ s with outbound := q }, .ok ())
  | .error .queueFull => (s.cancel, .error .queueFull)
  | .error .closed => (s, .error .closed)

/-- Queues an event that the gate lets through. -/
def pushEvent (s : Subscriber) (id : Int) (f : Frame) :
    Subscriber × Except Outbound.Refusal Bool :=
  match s.push f with
  | (s, .ok ()) => ({ s with lastEventId := id }, .ok true)
  | (s, .error e) => (s, .error e)

/-- Queues an event of the history or the gap; `false` if it has been handled before. -/
def enqueueReplayed (s : Subscriber) (id : Int) (f : Frame) :
    Subscriber × Except Outbound.Refusal Bool :=
  if id ≤ s.lastEventId then (s, .ok false) else s.pushEvent id f

/-- Queues a live event; `false` if it has been handled before or a replay will see to it. -/
def enqueueLive (s : Subscriber) (id : Int) (f : Frame) :
    Subscriber × Except Outbound.Refusal Bool :=
  if s.phase.isReplaying ∨ id ≤ s.lastEventId then (s, .ok false) else s.pushEvent id f

/-- Goes live and queues the confirmation, unless events announced before are missing. -/
def handOver (s : Subscriber) (announced : Int) (mode : Handover) (confirmation : Frame) :
    Subscriber × Except Outbound.Refusal Standing :=
  let goLive (s : Subscriber) : Subscriber × Except Outbound.Refusal Standing :=
    match s.push confirmation with
    | (s, .ok ()) => (s.withPhase .live, .ok .live)
    | (s, .error e) => (s, .error e)
  match mode with
  | .fresh => goLive (s.skipPast announced)
  | .reconciled =>
    if s.lastEventId < announced then (s, .ok (.behind announced)) else goLive s
  | .force => goLive s

end Subscriber

end EventStream
