import EventStream.Proofs.World.Parts

/-! The lock of a connection's replays. The replay that holds it is the first in line, so there
is one at most, and while it has the connection in its replaying phases nobody else sends
to that connection. -/

namespace EventStream

open Subscriber (Alike)

namespace Replay

/-- The stages that a replay comes to after it has begun with its subscriber. -/
def Stage.hasBegun : Stage → Bool
  | arriving => false
  | awaitingLock => false
  | awaitingPermit => false
  | admitted => false
  | ended => false
  | _ => true

theorem Stage.holdsLock_of_hasBegun {stage : Stage} (h : stage.hasBegun = true) :
    stage.holdsLock = true := by
  cases stage <;> first | rfl | cases h

theorem holdsLock_of_next {announced : Int} {request : Subscription} {stage stage' : Stage}
    {s t : Subscriber} (hn : Next announced request stage s stage' t)
    (hl : stage'.holdsLock = true) : stage.holdsLock = true ∨ stage = .awaitingLock := by
  cases hn with
  | arrive => cases hl
  | lock => exact .inr rfl
  | drop => cases hl
  | _ => exact .inl rfl

/-- A replay that has not ended has begun with its subscriber just now, or it has begun before and
leaves channels and replaying phase. -/
theorem begun_cases {announced : Int} {request : Subscription} {stage stage' : Stage}
    {s t : Subscriber} (hn : Next announced request stage s stage' t)
    (hb : stage'.hasBegun = true) :
    t = s.beginReplay request.channel ∨ stage.hasBegun = true ∧ t.channels = s.channels ∧
      (s.phase.isReplaying = true → t.phase.isReplaying = true) := by
  have halike : Alike s t → t.channels = s.channels ∧
      (s.phase.isReplaying = true → t.phase.isReplaying = true) := fun ha =>
    ⟨ha.channels, fun hs => by rw [ha.phase]; exact hs⟩
  cases hn with
  | begin => exact .inl rfl
  | beginFresh => exact .inl rfl
  | refuseHistory ht => exact .inr ⟨rfl, halike (Subscriber.alike_of_refuses ht)⟩
  | report => exact .inr ⟨rfl, halike (Subscriber.alike_push s rfl)⟩
  | settle => exact .inr ⟨rfl, rfl, fun _ => rfl⟩
  | ask => exact .inr ⟨rfl, rfl, id⟩
  | take => exact .inr ⟨rfl, rfl, id⟩
  | historyFailed => exact .inr ⟨rfl, rfl, id⟩
  | gapFailed => exact .inr ⟨rfl, rfl, id⟩
  | skip => exact .inr ⟨rfl, rfl, id⟩
  | stale => exact .inr ⟨rfl, rfl, id⟩
  | queue => exact .inr ⟨rfl, rfl, id⟩
  | closeHistory => exact .inr ⟨rfl, rfl, id⟩
  | closeGap => exact .inr ⟨rfl, rfl, id⟩
  | lower => exact .inr ⟨rfl, rfl, id⟩
  | giveUp => exact .inr ⟨rfl, rfl, id⟩
  | behind => exact .inr ⟨rfl, rfl, id⟩
  | lag => exact .inr ⟨rfl, rfl, id⟩
  | _ => cases hb

/-- Once begun, a replay keeps its subscriber in a replaying phase until it ends. -/
theorem isReplaying_of_next {announced : Int} {request : Subscription} {stage stage' : Stage}
    {s t : Subscriber} (hn : Next announced request stage s stage' t)
    (hb : stage'.hasBegun = true)
    (h : stage.hasBegun = true → s.phase.isReplaying = true) : t.phase.isReplaying = true := by
  rcases begun_cases hn hb with rfl | ⟨hbefore, -, hkeep⟩
  · rfl
  · exact hkeep (h hbefore)

end Replay

namespace World

/-- Who holds a lock is the first in its line. -/
def Locked (w : World) : Prop :=
  ∀ k r, w.hub.task k = .replay r → r.stage.holdsLock = true →
    (w.hub.lockLine r.connection).head? = some k

/-- The first in line stays there until it ends. -/
theorem Effect.head {w w' : World} {m : Move} (h : Effect w m w') {c : ConnectionId} {k : TaskId}
    (hhead : (w.hub.lockLine c).head? = some k)
    (hk : ∀ r, w'.hub.task k = .replay r → r.stage ≠ .ended) :
    (w'.hub.lockLine c).head? = some k := by
  cases h with
  | inert _ hi => rw [hi.lockLine]; exact hhead
  | @replay j r stage s h' ht hn hm =>
      have hl : h'.lockLine c =
          update w.hub.lockLine r.connection
            (Replay.queue j stage (w.hub.lockLine r.connection)) c := by rw [hm.lockLine]
      change (h'.lockLine c).head? = some k
      rw [hl]
      by_cases hc : c = r.connection
      · subst hc
        rw [update_self]
        cases hline : w.hub.lockLine r.connection with
        | nil => rw [hline] at hhead; cases hhead
        | cons i line =>
            rw [hline] at hhead
            cases hhead
            cases stage with
            | ended =>
                have hkj : k ≠ j := by
                  rintro rfl
                  refine hk { r with stage := .ended } ?_ rfl
                  change h'.task k = _
                  rw [hm.task, update_self]
                simp [Replay.queue, hkj]
            | awaitingLock => rfl
            | _ => rfl
      · rw [update_of_ne _ _ hc]
        exact hhead
  | _ => exact hhead

theorem locked_step {w w' : World} {m : Move} (h : w.Locked) (he : Effect w m w') : w'.Locked := by
  intro k r hk hl
  have hc := he.came k
  rw [hk] at hc
  have hlive : ∀ q, w'.hub.task k = .replay q → q.stage ≠ .ended := by
    intro q hq hended
    rw [hk] at hq
    cases hq
    rw [hended] at hl
    cases hl
  cases hc with
  | stays _ ht => exact he.head (h k r ht hl) hlive
  | subscribes => cases hl
  | @answersReplay q purpose a ht hs => exact he.head (h k q ht (by rw [hs]; rfl)) hlive
  | @movesReplay q stage s ht hn hm hlock =>
      rcases Replay.holdsLock_of_next hn hl with hold | hold
      · exact he.head (h k q ht hold) hlive
      · exact he.head (hlock hold fun hended => hlive _ hk hended) hlive

theorem Locked.unique {w : World} (h : w.Locked) {i j : TaskId} {r q : Replay}
    (hi : w.hub.task i = .replay r) (hj : w.hub.task j = .replay q)
    (hri : r.stage.holdsLock = true) (hqj : q.stage.holdsLock = true)
    (hc : r.connection = q.connection) : i = j := by
  have h1 := h i r hi hri
  rw [hc, h j q hj hqj] at h1
  exact (Option.some.inj h1).symm

/-- A replay that has begun has its connection in a replaying phase. -/
def Withheld (w : World) : Prop :=
  ∀ k r, w.hub.task k = .replay r → r.stage.hasBegun = true →
    (w.hub.subscriber r.connection).phase.isReplaying = true

/-- While a replay has begun, only its own moves touch its subscriber. -/
theorem touches_of_hasBegun {w w' : World} {m : Move} (hl : w.Locked) (hp : w.Withheld)
    {k : TaskId} {r : Replay} (hk : w.hub.task k = .replay r) (hb : r.stage.hasBegun = true)
    (he : Effect w m w') :
    Alike (w.hub.subscriber r.connection) (w'.hub.subscriber r.connection) ∨
      ∃ stage, m = .advance k ∧ w'.hub.task k = .replay { r with stage } ∧
        Replay.Next w.hub.checkpoint.announced r.request r.stage
          (w.hub.subscriber r.connection) stage (w'.hub.subscriber r.connection) := by
  have hphase := hp k r hk hb
  cases he.touches r.connection with
  | alike ha => exact .inl ha
  | @replay j q stage ht hc hlock hn ht' =>
      obtain rfl := hl.unique ht hk hlock (Replay.Stage.holdsLock_of_hasBegun hb) hc
      rw [ht] at hk
      cases hk
      exact .inr ⟨stage, rfl, ht', hn⟩
  | tick _ _ hnot => rw [hphase] at hnot; cases hnot
  | offer _ hnot => rw [hphase] at hnot; cases hnot

/-- What a replay brings about in its subscriber when it begins, and keeps until it ends, nobody
else undoes. -/
theorem Effect.begun_step {P : Subscriber → Prop} {w w' : World} {m : Move} (he : Effect w m w')
    (hl : w.Locked) (hp : w.Withheld) (halike : ∀ {s t}, Alike s t → P s → P t)
    (hnext : ∀ {r : Replay} {stage s t},
      Replay.Next w.hub.checkpoint.announced r.request r.stage s stage t →
        stage.hasBegun = true → (r.stage.hasBegun = true → P s) → P t)
    (h : ∀ k r, w.hub.task k = .replay r → r.stage.hasBegun = true →
      P (w.hub.subscriber r.connection)) :
    ∀ k r, w'.hub.task k = .replay r → r.stage.hasBegun = true →
      P (w'.hub.subscriber r.connection) := by
  intro k r hk hb
  have hc := he.came k
  rw [hk] at hc
  cases hc with
  | stays _ ht =>
      rcases touches_of_hasBegun hl hp ht hb he with ha | ⟨stage, -, ht', hn⟩
      · exact halike ha (h k r ht hb)
      · rw [hk] at ht'
        obtain ⟨c, request, stage'⟩ := r
        cases ht'
        exact hnext (r := ⟨c, request, stage⟩) hn hb (h k _ ht)
  | subscribes => cases hb
  | @answersReplay q purpose a ht hs =>
      have hq : q.stage.hasBegun = true := by rw [hs]; rfl
      rcases touches_of_hasBegun hl hp ht hq he with ha | ⟨_, hm, -⟩
      · exact halike ha (h k q ht hq)
      · cases hm
  | @movesReplay q stage s ht hn hm =>
      change P (w'.hub.subscriber q.connection)
      rw [hm.subscriber, update_self]
      exact hnext hn hb (h k q ht)

theorem withheld_step {w w' : World} {m : Move} (hl : w.Locked) (h : w.Withheld)
    (he : Effect w m w') : w'.Withheld :=
  he.begun_step (P := fun s => s.phase.isReplaying = true) hl h
    (fun ha hs => by rw [ha.phase]; exact hs) Replay.isReplaying_of_next h

section Run

variable {capacity replays : Nat} {start : Instant} {past : List (World × Move)} {w : World}

theorem locked_of_run (run : Run Possible (.new capacity replays start) past w) : w.Locked := by
  induction run with
  | nil => intro k r hk; cases hk
  | cons run hm ih => exact locked_step ih (effect (tidy_of_run run) hm)

theorem withheld_of_run (run : Run Possible (.new capacity replays start) past w) :
    w.Withheld := by
  induction run with
  | nil => intro k r hk; cases hk
  | cons run hm ih => exact withheld_step (locked_of_run run) ih (effect (tidy_of_run run) hm)

end Run

end World

end EventStream
