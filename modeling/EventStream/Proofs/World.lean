import EventStream.Server
import EventStream.Proofs.Tick

/-! Runs of a hub over its log. A run is a list of moves: those of the hub's tasks, the log's
answers to their queries, and whatever clients and producers may do in between. Held answers
need no move of their own: an answer is held while its task does not advance. -/

namespace EventStream

structure World where
  log : Log
  hub : Hub

namespace World

/-- An empty log and a hub without connections. -/
def new (capacity replays : Nat) (start : Instant) : World :=
  ⟨.empty, .new capacity replays start⟩

inductive Move where
  | append (draft : Draft)
  | insertRow (id : Option Int) (row : Row)
  | deleteRow (id : Int)
  | connect
  | register (c : ConnectionId)
  | deregister (c : ConnectionId)
  | disconnect (c : ConnectionId)
  | shutdown
  | subscribe (c : ConnectionId) (request : Subscription)
  | startTick
  /-- The task's next step, if it can go on. -/
  | advance (k : TaskId)
  /-- Chance decides what replays see first from now on. -/
  | toss (cancelFirst : Bool)
  /-- The log answers the task's query. -/
  | answer (k : TaskId) (a : Answer)
  | receive (c : ConnectionId) (limit : Option Nat)
  | closeReceiver (c : ConnectionId)
  | send (c : ConnectionId) (f : Frame)
  /-- A live event that no tick has offered. -/
  | offerLive (c : ConnectionId) (id : Int) (f : Frame)
  | resetCursor (time : Instant)
  | advanceCursor (time : Instant)
  | announce (id : Int)
  | markBroadcast (id : Int)

namespace Move

/-- The task that a move lets go on. -/
def advanced? : Move → Option TaskId
  | advance k => some k
  | _ => none

/-- The task that a move answers. -/
def answered? : Move → Option TaskId
  | answer k _ => some k
  | _ => none

/-- The events that an answer brings. -/
def found : Move → List Event
  | answer _ (.ok events) => events
  | _ => []

/-- A query fails. -/
def isFailure : Move → Bool
  | answer _ (.error _) => true
  | _ => false

def isTickStart : Move → Bool
  | startTick => true
  | _ => false

def isAnnounce : Move → Bool
  | announce _ => true
  | _ => false

def isMark : Move → Bool
  | markBroadcast _ => true
  | _ => false

/-- The cursor is set from outside. -/
def setsCursor : Move → Bool
  | resetCursor _ => true
  | advanceCursor _ => true
  | _ => false

/-- What the move asks for on connection `c`. -/
def request? (c : ConnectionId) : Move → Option Subscription
  | subscribe d request => if d = c then some request else none
  | _ => none

/-- The connection to which a live event comes from outside. -/
def target? : Move → Option ConnectionId
  | offerLive c _ _ => some c
  | _ => none

end Move

def onHub (w : World) (f : Hub → Hub) : World := { w with hub := f w.hub }

/-- The world with another log, if the change of the log has not failed. -/
def withLog {α : Type} (w : World) : Except LogError (α × Log) → World
  | .ok (_, log) => { w with log }
  | .error _ => w

def onSubscriber (w : World) (c : ConnectionId) (f : Subscriber → Subscriber) : World :=
  w.onHub fun h => h.setSubscriber c (f (h.subscriber c))

def apply (w : World) : Move → World
  | .append draft => w.withLog (w.log.append draft)
  | .insertRow id row => w.withLog (w.log.insertRow id row)
  | .deleteRow id => { w with log := (w.log.delete id).2 }
  | .connect => w.onHub (·.connect.2)
  | .register c => w.onHub (·.register c)
  | .deregister c => w.onHub (·.deregister c)
  | .disconnect c => w.onHub (·.disconnect c)
  | .shutdown => w.onHub Hub.shutdown
  | .subscribe c request => w.onHub fun h => (h.subscribe c request).2
  | .startTick => w.onHub (·.startTick.2)
  | .advance k => w.onHub (·.advance k)
  | .toss cancelFirst => w.onHub (·.toss cancelFirst)
  | .answer k a => w.onHub (·.answer k a)
  | .receive c limit => w.onSubscriber c fun s =>
      { s with outbound := (s.outbound.receive limit).2 }
  | .closeReceiver c => w.onSubscriber c fun s => { s with outbound := s.outbound.close }
  | .send c f => w.onSubscriber c fun s => (s.push f).1
  | .offerLive c id f => w.onSubscriber c fun s => (s.enqueueLive id f).1
  | .resetCursor time => w.onHub (·.mapCheckpoint (·.reset time))
  | .advanceCursor time => w.onHub (·.mapCheckpoint (·.advanceTo time))
  | .announce id => w.onHub (·.mapCheckpoint (·.announce id))
  | .markBroadcast id => w.onHub (·.mapCheckpoint (·.markBroadcast id))

/-- A query may fail at any time. If it does not, it brings what the log has, in any order. -/
def MayAnswer (found : Except LogError (List Event)) : Answer → Prop
  | .error _ => True
  | .ok events =>
    match found with
    | .ok es => events.Perm es
    | .error _ => False

/-- The task is at a query, and the log may answer it so. -/
def Answers (w : World) (k : TaskId) (a : Answer) : Prop :=
  ∃ cursor ∈ (w.hub.task k).question?, MayAnswer (w.log.eventsAfter cursor) a

/-- Moves speak of connections that have been opened, and frames from elsewhere are no
events. -/
def Possible (w : World) : Move → Prop
  | .register c => c < w.hub.opened
  | .deregister c => c < w.hub.opened
  | .disconnect c => c < w.hub.opened
  | .subscribe c _ => c < w.hub.opened
  | .receive c _ => c < w.hub.opened
  | .closeReceiver c => c < w.hub.opened
  | .send c f => c < w.hub.opened ∧ f.message? = none
  | .offerLive c _ f => c < w.hub.opened ∧ f.message? = none
  | .answer k a => w.Answers k a
  | _ => True

/-- Rows are only added to the log, under ids that it has not reached. -/
def Appends (w : World) : Move → Prop
  | .insertRow (some id) _ => w.log.lastId < id
  | .deleteRow _ => False
  | _ => True

/-- A run from `start` to the world on the right, all of whose moves are allowed. The list has
each world left behind with the move made there, the last one first. -/
inductive Run (allowed : World → Move → Prop) (start : World) :
    List (World × Move) → World → Prop where
  | nil : Run allowed start [] start
  | cons {past : List (World × Move)} {w : World} {m : Move} :
      Run allowed start past w → allowed w m → Run allowed start ((w, m) :: past) (w.apply m)

theorem Run.mono {allowed allowed' : World → Move → Prop} {start w : World}
    {past : List (World × Move)} (h : ∀ v m, allowed v m → allowed' v m)
    (run : Run allowed start past w) : Run allowed' start past w := by
  induction run with
  | nil => exact .nil
  | cons _ hm ih => exact .cons ih (h _ _ hm)

/-- The world `v` was there at some time of the run that led to `w`, or is `w`. -/
def Visited (past : List (World × Move)) (w v : World) : Prop := v = w ∨ ∃ m, (v, m) ∈ past

theorem Visited.cons {past : List (World × Move)} {w w' v : World} {m : Move}
    (h : Visited past w v) : Visited ((w, m) :: past) w' v := by
  rcases h with rfl | ⟨n, hn⟩
  · exact .inr ⟨m, List.mem_cons_self⟩
  · exact .inr ⟨n, List.mem_cons_of_mem _ hn⟩

theorem visited_cons_iff {past : List (World × Move)} {w w' v : World} {m : Move} :
    Visited ((w, m) :: past) w' v ↔ v = w' ∨ Visited past w v := by
  simp only [Visited, List.mem_cons, Prod.mk.injEq]
  constructor
  · rintro (h | ⟨n, ⟨h, -⟩ | h⟩)
    · exact .inl h
    · exact .inr (.inl h)
    · exact .inr (.inr ⟨n, h⟩)
  · rintro (h | h | ⟨n, h⟩)
    · exact .inl h
    · exact .inr ⟨m, .inl ⟨h, rfl⟩⟩
    · exact .inr ⟨n, .inr h⟩

/-- What was visited has been reached by a run of its own. -/
theorem Run.visited {allowed : World → Move → Prop} {start w : World} {past : List (World × Move)}
    (run : Run allowed start past w) {v : World} (hv : Visited past w v) :
    ∃ past', Run allowed start past' v ∧ ∀ u, Visited past' v u → Visited past w u := by
  induction run with
  | nil =>
      rcases hv with rfl | ⟨m, hm⟩
      · exact ⟨[], .nil, fun u hu => hu⟩
      · cases hm
  | @cons past w m run hm ih =>
      rcases visited_cons_iff.mp hv with rfl | hv
      · exact ⟨(w, m) :: past, .cons run hm, fun u hu => hu⟩
      · obtain ⟨past', run', hsub⟩ := ih hv
        exact ⟨past', run', fun u hu => (hsub u hu).cons⟩

theorem forall_visited_iff {past : List (World × Move)} {w : World} {P : World → Prop} :
    (∀ v, Visited past w v → P v) ↔ P w ∧ ∀ p ∈ past, P p.1 := by
  constructor
  · exact fun h => ⟨h w (.inl rfl), fun p hp => h p.1 (.inr ⟨p.2, hp⟩)⟩
  · rintro ⟨hw, hpast⟩ v (rfl | ⟨m, hm⟩)
    · exact hw
    · exact hpast (v, m) hm

/-- A run that goes on from where another has led. -/
theorem Run.append {allowed : World → Move → Prop} {start v w : World}
    {past past' : List (World × Move)} (run : Run allowed start past v)
    (run' : Run allowed v past' w) : Run allowed start (past' ++ past) w := by
  induction run' with
  | nil => exact run
  | cons _ hm ih => exact .cons ih hm

/-- If short of the goal there is always a move that leaves less to do, some run gets there. -/
theorem exists_run_of_wellFounded {allowed : World → Move → Prop} {α : Type} {lt : α → α → Prop}
    (hwf : WellFounded lt) (inv : α → World → Prop) (goal : World → Prop)
    (step : ∀ a v, inv a v → ¬ goal v → ∃ m b, allowed v m ∧ inv b (v.apply m) ∧ lt b a)
    {a : α} {w : World} (hw : inv a w) :
    ∃ past w' b, Run allowed w past w' ∧ inv b w' ∧ goal w' := by
  induction a using hwf.induction generalizing w with
  | _ a ih =>
      by_cases hgoal : goal w
      · exact ⟨[], w, a, .nil, hw, hgoal⟩
      · obtain ⟨m, b, hm, hinv, hlt⟩ := step a w hw hgoal
        obtain ⟨past, w', b', run, hdone⟩ := ih b hlt hinv
        exact ⟨past ++ [(w, m)], w', b', .append (.cons .nil hm) run, hdone⟩

/-- So it does if each world has its cost. -/
theorem exists_run_of_decreasing {allowed : World → Move → Prop} (inv goal : World → Prop)
    (cost : World → Nat)
    (step : ∀ v, inv v → ¬ goal v →
      ∃ m, allowed v m ∧ inv (v.apply m) ∧ cost (v.apply m) < cost v)
    {w : World} (hw : inv w) : ∃ past w', Run allowed w past w' ∧ inv w' ∧ goal w' := by
  have step' : ∀ n v, inv v ∧ cost v = n → ¬ goal v →
      ∃ m n', allowed v m ∧ (inv (v.apply m) ∧ cost (v.apply m) = n') ∧ n' < n := by
    rintro n v ⟨hv, rfl⟩ hgoal
    obtain ⟨m, hm, hinv, hlt⟩ := step v hv hgoal
    exact ⟨m, _, hm, ⟨hinv, rfl⟩, hlt⟩
  obtain ⟨past, w', -, run, ⟨hinv, -⟩, hgoal⟩ :=
    exists_run_of_wellFounded Nat.lt_wfRel.wf (fun n v => inv v ∧ cost v = n) goal step'
      ⟨hw, rfl⟩
  exact ⟨past, w', run, hinv, hgoal⟩

/-- A run up to one of its moves, and from there on. -/
theorem Run.split {allowed : World → Move → Prop} {start v w : World}
    {past : List (World × Move)} {m : Move} (run : Run allowed start past w)
    (h : (v, m) ∈ past) :
    ∃ before after, past = after ++ (v, m) :: before ∧ Run allowed start before v ∧
      allowed v m ∧ Run allowed (v.apply m) after w := by
  induction run with
  | nil => cases h
  | @cons past w n run hn ih =>
      rcases List.mem_cons.mp h with heq | h
      · cases heq
        exact ⟨past, [], rfl, run, hn, .nil⟩
      · obtain ⟨before, after, rfl, hbefore, hm, hafter⟩ := ih h
        exact ⟨before, (w, n) :: after, rfl, hbefore, hm, .cons hafter hn⟩

theorem Visited.of_earlier {earlier later : List (World × Move)} {u v w : World} {m : Move}
    (h : Visited earlier v u) : Visited (later ++ (v, m) :: earlier) w u := by
  rcases h with rfl | ⟨n, hn⟩
  · exact .inr ⟨m, List.mem_append_right _ List.mem_cons_self⟩
  · exact .inr ⟨n, List.mem_append_right _ (List.mem_cons_of_mem _ hn)⟩

/-- The world that a move of the run led to was there as well. -/
theorem Run.visited_apply {allowed : World → Move → Prop} {start v w : World}
    {past : List (World × Move)} {m : Move} (run : Run allowed start past w)
    (h : (v, m) ∈ past) : Visited past w (v.apply m) := by
  induction run with
  | nil => cases h
  | @cons past w n run hn ih =>
      rcases List.mem_cons.mp h with heq | h
      · cases heq
        exact .inl rfl
      · exact (ih h).cons

/-! ### Scripted runs -/

/-- Where a list of moves leads. -/
def applyAll (w : World) : List Move → World
  | [] => w
  | m :: ms => (w.apply m).applyAll ms

/-- The worlds left behind on the way, before those of `past`. -/
def history (w : World) (past : List (World × Move)) : List Move → List (World × Move)
  | [] => past
  | m :: ms => (w.apply m).history ((w, m) :: past) ms

/-- All moves of the list are allowed where they are made. -/
def Follows (allowed : World → Move → Prop) (w : World) : List Move → Prop
  | [] => True
  | m :: ms => allowed w m ∧ Follows allowed (w.apply m) ms

instance Follows.decidable {allowed : World → Move → Prop} [∀ w m, Decidable (allowed w m)] :
    (w : World) → (ms : List Move) → Decidable (Follows allowed w ms)
  | _, [] => .isTrue trivial
  | w, m :: ms =>
    have : Decidable (Follows allowed (w.apply m) ms) := Follows.decidable (w.apply m) ms
    inferInstanceAs (Decidable (allowed w m ∧ Follows allowed (w.apply m) ms))

theorem Follows.run {allowed : World → Move → Prop} {start w : World} {past : List (World × Move)}
    {ms : List Move} (h : Follows allowed w ms) (run : Run allowed start past w) :
    Run allowed start (w.history past ms) (w.applyAll ms) := by
  induction ms generalizing w past with
  | nil => exact run
  | cons m ms ih => exact ih h.2 (.cons run h.1)

theorem mem_history_of_mem {w : World} {past : List (World × Move)} {ms : List Move}
    {p : World × Move} (h : p ∈ past) : p ∈ w.history past ms := by
  induction ms generalizing w past with
  | nil => exact h
  | cons m ms ih => exact ih (List.mem_cons_of_mem _ h)

/-- A script leaves behind the world to which the moves before have led. -/
theorem mem_history (w : World) (past : List (World × Move)) (before : List Move) (m : Move)
    (rest : List Move) : (w.applyAll before, m) ∈ w.history past (before ++ m :: rest) := by
  induction before generalizing w past with
  | nil =>
      change (w, m) ∈ (w.apply m).history ((w, m) :: past) rest
      exact mem_history_of_mem List.mem_cons_self
  | cons n before ih => exact ih _ _

/-- A policy created so many microseconds after the epoch. -/
def policyAt (micros : Nat) : Draft where
  kind := .policyCreated
  createdAt := (Instant.ofMicros? micros).getD .epoch

instance : (found : Except LogError (List Event)) → (a : Answer) → Decidable (MayAnswer found a)
  | _, .error _ => .isTrue trivial
  | .ok es, .ok events => inferInstanceAs (Decidable (events.Perm es))
  | .error _, .ok _ => .isFalse id

instance (w : World) (k : TaskId) (a : Answer) : Decidable (w.Answers k a) :=
  inferInstanceAs (Decidable (∃ cursor ∈ (w.hub.task k).question?, _))

instance (w : World) (m : Move) : Decidable (w.Possible m) := by
  cases m <;> dsimp only [Possible] <;> infer_instance

instance (w : World) (m : Move) : Decidable (w.Appends m) := by
  cases m with
  | insertRow id row => cases id <;> dsimp only [Appends] <;> infer_instance
  | _ => dsimp only [Appends]; infer_instance

end World

end EventStream
