import Mathlib.Logic.Relation
import EventStream.Proofs.World.Lock

/-! Hand-overs in two halves. A replay that hands over reads what has been announced and then
decides, and holds its subscriber's lock all the while. Who needs no lock of this subscriber may
go on in between: events may be announced, and the queue may be received from or sent to. With
nothing in between, the two halves are the one step that the hub takes. -/

namespace EventStream

/-- The stages whose step locks the subscriber. -/
def Replay.Stage.locksSubscriber : Replay.Stage → Bool
  | .admitted => true
  | .delivering .. => true
  | .settling .. => true
  | .reconciling .. => true
  | .lagging .. => true
  | .confirming _ => true
  | .aborting _ => true
  | _ => false

namespace Task

/-- The connection whose subscriber the task's next step locks. -/
def locks? : Task → Option ConnectionId
  | .replay r => if r.stage.locksSubscriber then some r.connection else none
  | .tick (.picking _ (c :: _) _) => some c
  | .tick (.broadcasting _ (_ :: _) _ (c :: _)) => some c
  | .tick _ => none

/-- The connection that a replay is about to hand over. -/
def handsOver? : Task → Option ConnectionId
  | .replay { connection, stage := .reconciling .., .. } => some connection
  | _ => none

theorem handsOver?_eq_some {t : Task} {c : ConnectionId} :
    t.handsOver? = some c ↔
      ∃ request cursor floor, t = .replay ⟨c, request, .reconciling cursor floor⟩ := by
  unfold handsOver?
  split
  · simp [eq_comm]
  · next hne =>
    simp only [reduceCtorEq, false_iff]
    rintro ⟨request, cursor, floor, rfl⟩
    exact hne c request cursor floor rfl

end Task

namespace Hub

/-- Ends the hand-over of replay `k`, which has read `announced`. -/
def conclude (h : Hub) (k : TaskId) (announced : Int) : Hub :=
  match h.task k with
  | .replay r =>
    match r.stage with
    | .reconciling cursor floor =>
      match (h.subscriber r.connection).handOver announced .reconciled
          (.subscriptionConfirmed r.request.channel) with
      | (s, .ok (.behind highWater)) =>
        (h.setSubscriber r.connection s).setStage k r (.lagging cursor floor highWater)
      | (s, _) => (h.setSubscriber r.connection s).finish k r
    | _ => h
  | .tick _ => h

section Conclude

variable {h : Hub} {k : TaskId} {c : ConnectionId}

/-- A hand-over that concludes with what is announced now is the hub's step. -/
theorem conclude_announced (hk : (h.task k).handsOver? = some c) :
    h.conclude k h.checkpoint.announced = h.advance k := by
  obtain ⟨request, cursor, floor, ht⟩ := Task.handsOver?_eq_some.mp hk
  rw [advance_of_not_isWaiting ht rfl rfl]
  simp only [conclude, ht]
  rfl

theorem conclude_mapCheckpoint (h : Hub) (k : TaskId) (announced : Int)
    (f : Checkpoint → Checkpoint) :
    (h.mapCheckpoint f).conclude k announced = (h.conclude k announced).mapCheckpoint f := by
  simp only [conclude, mapCheckpoint]
  repeat' split
  all_goals rfl

theorem checkpoint_conclude (h : Hub) (k : TaskId) (announced : Int) :
    (h.conclude k announced).checkpoint = h.checkpoint := by
  simp only [conclude]
  repeat' split
  all_goals rfl

end Conclude

end Hub

/-- Once begun, a replay keeps its subscriber subscribed until it ends. -/
theorem Replay.isSubscribed_of_hasBegun {announced : Int} {r : Replay} {stage : Replay.Stage}
    {s t : Subscriber} (hn : Replay.Next announced r.request r.stage s stage t)
    (hb : stage.hasBegun = true)
    (h : r.stage.hasBegun = true → s.isSubscribed .systemEvents = true) :
    t.isSubscribed .systemEvents = true := by
  rcases Replay.begun_cases hn hb with rfl | ⟨hbefore, hchannels, -⟩
  · have hchannel : r.request.channel = .systemEvents := by cases r.request.channel; rfl
    simp [Subscriber.isSubscribed, Subscriber.beginReplay, hchannel]
  · simpa only [Subscriber.isSubscribed, hchannels] using h hbefore

namespace World

/-! ### What a conclusion does -/

/-- The world in which another id has been announced last. -/
def seeing (w : World) (announced : Int) : World :=
  w.onHub (·.mapCheckpoint ({ · with announced }))

/-- A conclusion does what the hub's step does where what has been read is announced. -/
theorem apply_seeing {w : World} {k : TaskId} {c : ConnectionId} (announced : Int)
    (hk : (w.hub.task k).handsOver? = some c) :
    (w.seeing announced).apply (.advance k) =
      (w.onHub (·.conclude k announced)).seeing announced := by
  have hsame := Hub.conclude_announced (h := (w.seeing announced).hub) hk
  exact congrArg (World.mk w.log)
    (hsame.symm.trans (Hub.conclude_mapCheckpoint w.hub k announced _))

theorem effect_conclude {w : World} {k : TaskId} {c : ConnectionId} (announced : Int)
    (hk : (w.hub.task k).handsOver? = some c) :
    Effect (w.seeing announced) (.advance k)
      ((w.onHub (·.conclude k announced)).seeing announced) := by
  rw [← apply_seeing announced hk]
  exact effect_advance _ k

/-! ### What holds whatever has been announced -/

structure Sane (w : World) : Prop where
  tidy : w.hub.Tidy
  locked : w.Locked
  withheld : w.Withheld
  subscribed : ∀ k r, w.hub.task k = .replay r → r.stage.hasBegun = true →
    (w.hub.subscriber r.connection).isSubscribed .systemEvents = true

theorem Sane.seeing {w : World} (h : w.Sane) (announced : Int) : (w.seeing announced).Sane :=
  ⟨h.tidy.of_alike rfl h.tidy.registered rfl rfl fun _ _ => .refl _, h.locked, h.withheld,
    h.subscribed⟩

theorem Sane.of_seeing {w : World} {announced : Int} (h : (w.seeing announced).Sane) : w.Sane :=
  ⟨h.tidy.of_alike rfl h.tidy.registered rfl rfl fun _ _ => .refl _, h.locked, h.withheld,
    h.subscribed⟩

theorem sane_new (capacity replays : Nat) (start : Instant) :
    (World.new capacity replays start).Sane := by
  refine ⟨Hub.tidy_new capacity replays start, ?_, ?_, ?_⟩
  all_goals
    intro k r hk
    cases hk

theorem sane_step {w w' : World} {m : Move} (h : w.Sane) (he : Effect w m w')
    (ht : w'.hub.Tidy) : w'.Sane where
  tidy := ht
  locked := locked_step h.locked he
  withheld := withheld_step h.locked h.withheld he
  subscribed := by
    refine he.begun_step (P := fun s => s.isSubscribed .systemEvents = true) h.locked h.withheld
      (fun ha hs => ?_) Replay.isSubscribed_of_hasBegun h.subscribed
    simpa only [Subscriber.isSubscribed, ha.channels] using hs

theorem Sane.conclude {w : World} {k : TaskId} {c : ConnectionId} (h : w.Sane) (announced : Int)
    (hk : (w.hub.task k).handsOver? = some c) : (w.onHub (·.conclude k announced)).Sane := by
  refine .of_seeing (sane_step (h.seeing announced) (effect_conclude announced hk) ?_)
  rw [← apply_seeing announced hk]
  exact tidy_apply (h.seeing announced).tidy trivial

/-- Nobody but itself takes a replay from where it hands over. -/
theorem Effect.task_of_handsOver {w w' : World} {m : Move} {k : TaskId} {c : ConnectionId}
    (he : Effect w m w') (hw : w.hub.Tidy) (hk : (w.hub.task k).handsOver? = some c)
    (hm : m.advanced? ≠ some k) : w'.hub.task k = w.hub.task k := by
  obtain ⟨request, cursor, floor, ht⟩ := Task.handsOver?_eq_some.mp hk
  rcases he.replay_next hw ht with hsame | ⟨purpose, a, -, hs, -⟩ | ⟨stage, s, rfl, -⟩
  · rw [hsame, ht]
  · cases hs
  · exact absurd rfl hm

end World

/-- A world in which replays hand over in two halves. A subscriber is locked from the first half
to the second: by whom, and what has been read. -/
structure Halved where
  world : World
  lock : ConnectionId → Option (TaskId × Int) := fun _ => none

namespace Halved

open World (Move)

/-- The world when nothing is handed over. -/
def whole (w : World) : Halved := { world := w }

inductive Act where
  /-- A move of the world, but not one that hands over. -/
  | move (m : Move)
  /-- The task locks its subscriber and reads what has been announced. -/
  | read (k : TaskId)
  /-- The task that has locked the subscriber decides and unlocks it. -/
  | conclude (c : ConnectionId)

def apply (x : Halved) : Act → Halved
  | .move m => { x with world := x.world.apply m }
  | .read k =>
    match (x.world.hub.task k).handsOver? with
    | some c => { x with lock := update x.lock c (some (k, x.world.hub.checkpoint.announced)) }
    | none => x
  | .conclude c =>
    match x.lock c with
    | some (k, announced) =>
      { world := x.world.onHub (·.conclude k announced), lock := update x.lock c none }
    | none => x

/-- The task that an act lets go on, other than to hand over. -/
def Act.advanced? : Act → Option TaskId
  | .move m => m.advanced?
  | _ => none

/-- The connection whose subscriber an act locks. -/
def locks? (x : Halved) : Act → Option ConnectionId
  | .move (.offerLive c _ _) => some c
  | .move (.advance k) => (x.world.hub.task k).locks?
  | .read k => (x.world.hub.task k).handsOver?
  | _ => none

/-- The act makes sense where it stands. -/
def Possible (x : Halved) : Act → Prop
  | .move m => x.world.Possible m
  | .read k => (x.world.hub.task k).handsOver?.isSome = true
  | .conclude c => (x.lock c).isSome = true

/-- Nobody locks a locked subscriber, and who hands over does it by halves. -/
structure Allowed (x : Halved) (a : Act) : Prop where
  possible : x.Possible a
  unlocked : ∀ c ∈ x.locks? a, x.lock c = none
  halved : ∀ k ∈ a.advanced?, (x.world.hub.task k).handsOver? = none

instance (x : Halved) (a : Act) : Decidable (x.Possible a) := by
  cases a <;> dsimp only [Possible] <;> infer_instance

instance (x : Halved) (a : Act) : Decidable (x.Allowed a) :=
  decidable_of_iff (x.Possible a ∧ (∀ c ∈ x.locks? a, x.lock c = none) ∧
      ∀ k ∈ a.advanced?, (x.world.hub.task k).handsOver? = none)
    ⟨fun ⟨hp, hu, hh⟩ => ⟨hp, hu, hh⟩, fun h => ⟨h.possible, h.unlocked, h.halved⟩⟩

/-- From `x` a run leads to `y`, all of whose acts are allowed. -/
def Reaches (allowed : Halved → Act → Prop) : Halved → Halved → Prop :=
  Relation.ReflTransGen fun x y => ∃ a, allowed x a ∧ x.apply a = y

/-! ### The halves and the whole -/

section Whole

variable {x : Halved} {k : TaskId} {c : ConnectionId}

theorem apply_read (hk : (x.world.hub.task k).handsOver? = some c) :
    x.apply (.read k) =
      { x with lock := update x.lock c (some (k, x.world.hub.checkpoint.announced)) } := by
  simp only [apply, hk]

theorem apply_conclude {announced : Int} (hl : x.lock c = some (k, announced)) :
    x.apply (.conclude c) =
      { world := x.world.onHub (·.conclude k announced), lock := update x.lock c none } := by
  simp only [apply, hl]

theorem allowed_read (hk : (x.world.hub.task k).handsOver? = some c) (hl : x.lock c = none) :
    x.Allowed (.read k) where
  possible := Option.isSome_iff_exists.mpr ⟨c, hk⟩
  unlocked := by
    intro d hd
    cases hk.symm.trans hd
    exact hl
  halved := by
    intro i hi
    cases hi

theorem allowed_conclude (hl : (x.lock c).isSome = true) : x.Allowed (.conclude c) where
  possible := hl
  unlocked := by
    intro d hd
    cases hd
  halved := by
    intro i hi
    cases hi

/-- Two halves with nothing in between are the one step of the hub. -/
theorem apply_read_conclude (hk : (x.world.hub.task k).handsOver? = some c)
    (hl : x.lock c = none) :
    (x.apply (.read k)).apply (.conclude c) = x.apply (.move (.advance k)) := by
  have hlock : update (update x.lock c (some (k, x.world.hub.checkpoint.announced))) c none =
      x.lock := by
    funext d
    by_cases hd : d = c
    · rw [hd, update_self, hl]
    · rw [update_of_ne _ _ hd, update_of_ne _ _ hd]
  rw [apply_read hk, apply_conclude (update_self ..), hlock]
  simp only [apply, World.apply, World.onHub, Hub.conclude_announced hk]

/-- Every run of the hub is a run by halves. -/
theorem reaches_of_run {past : List (World × Move)} {start w : World}
    (run : World.Run World.Possible start past w) :
    Reaches Allowed (.whole start) (.whole w) := by
  induction run with
  | nil => exact .refl
  | @cons past w m run hm ih =>
      by_cases hwhole : ∀ k ∈ m.advanced?, (w.hub.task k).handsOver? = none
      · exact .tail ih ⟨.move m, ⟨hm, fun _ _ => rfl, hwhole⟩, rfl⟩
      · obtain ⟨k, hadvanced, hk⟩ :
            ∃ k, m.advanced? = some k ∧ (w.hub.task k).handsOver? ≠ none := by
          simpa using hwhole
        obtain ⟨c, hk⟩ := Option.ne_none_iff_exists'.mp hk
        cases m with
        | advance i =>
            cases hadvanced
            have hwhole := apply_read_conclude (x := .whole w) hk rfl
            refine .tail (.tail ih ⟨.read k, allowed_read hk rfl, rfl⟩)
              ⟨.conclude c, allowed_conclude ?_, hwhole⟩
            rw [apply_read hk]
            exact congrArg Option.isSome (update_self ..)
        | _ => cases hadvanced

end Whole

/-! ### What holds of every run by halves -/

/-- Who has locked a subscriber is handing it over. -/
structure Sound (x : Halved) : Prop where
  sane : x.world.Sane
  held : ∀ c k announced, x.lock c = some (k, announced) →
    (x.world.hub.task k).handsOver? = some c

/-- What an allowed act does. -/
inductive Acted (x : Halved) : Act → Halved → Prop where
  | move {m} (hm : x.world.Possible m)
      (hh : ∀ k ∈ m.advanced?, (x.world.hub.task k).handsOver? = none)
      (he : World.Effect x.world m (x.world.apply m)) :
      Acted x (.move m) { x with world := x.world.apply m }
  | read {k c} (hk : (x.world.hub.task k).handsOver? = some c) :
      Acted x (.read k)
        { x with lock := update x.lock c (some (k, x.world.hub.checkpoint.announced)) }
  | conclude {c k announced} (hl : x.lock c = some (k, announced))
      (hk : (x.world.hub.task k).handsOver? = some c) :
      Acted x (.conclude c)
        { world := x.world.onHub (·.conclude k announced), lock := update x.lock c none }

theorem acted {x : Halved} {a : Act} (h : x.Sound) (ha : x.Allowed a) : Acted x a (x.apply a) := by
  cases a with
  | move m => exact .move ha.possible ha.halved (World.effect h.sane.tidy ha.possible)
  | read k =>
      obtain ⟨c, hk⟩ := Option.isSome_iff_exists.mp ha.possible
      rw [apply_read hk]
      exact .read hk
  | conclude c =>
      obtain ⟨⟨k, announced⟩, hl⟩ := Option.isSome_iff_exists.mp ha.possible
      rw [apply_conclude hl]
      exact .conclude hl (h.held c k announced hl)

theorem sound_step {x y : Halved} {a : Act} (h : x.Sound) (hy : Acted x a y) : y.Sound := by
  cases hy with
  | move hm hh he =>
      refine ⟨World.sane_step h.sane he (World.tidy_apply h.sane.tidy hm), ?_⟩
      intro c k announced hl
      have hk := h.held c k announced hl
      have hsame := he.task_of_handsOver h.sane.tidy hk fun hi => by
        rw [hh k hi] at hk
        cases hk
      exact (congrArg Task.handsOver? hsame).trans hk
  | @read i d hi =>
      refine ⟨h.sane, fun c k announced hl => ?_⟩
      rcases eq_or_of_update_eq hl with ⟨rfl, hlock⟩ | ⟨-, hl⟩
      · cases hlock
        exact hi
      · exact h.held c k announced hl
  | @conclude d i read hd hi =>
      refine ⟨h.sane.conclude read hi, fun c k announced hl => ?_⟩
      rcases eq_or_of_update_eq hl with ⟨-, hlock⟩ | ⟨hc, hl⟩
      · cases hlock
      · have hk := h.held c k announced hl
        have hsame := (World.effect_conclude read hi).task_of_handsOver (h.sane.seeing read).tidy hk
          fun hm => by
            cases hm
            exact hc (Option.some.inj (hk.symm.trans hi))
        exact (congrArg Task.handsOver? hsame).trans hk

/-- What acts preserve, runs preserve. -/
theorem Reaches.preserves {allowed : Halved → Act → Prop} {P : Halved → Prop} {x y : Halved}
    (run : Reaches allowed x y) (hallowed : ∀ x a, allowed x a → Allowed x a)
    (step : ∀ {x a y}, x.Sound → allowed x a → Acted x a y → P x → P y) (hs : x.Sound)
    (h : P x) : y.Sound ∧ P y := by
  induction run with
  | refl => exact ⟨hs, h⟩
  | tail _ hstep ih =>
      obtain ⟨a, ha, rfl⟩ := hstep
      have hacted := acted ih.1 (hallowed _ a ha)
      exact ⟨sound_step ih.1 hacted, step ih.1 ha hacted ih.2⟩

theorem sound_whole (capacity replays : Nat) (start : Instant) :
    (whole (.new capacity replays start)).Sound :=
  ⟨World.sane_new capacity replays start, fun _ _ _ hl => by cases hl⟩

end Halved

end EventStream
