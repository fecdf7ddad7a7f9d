import EventStream.Proofs.Delivery.Restore

/-! What a failed replay costs a live connection. -/

namespace EventStream

namespace World

/-- A tick offered the connection the message when nothing held it back. -/
def LetThrough (past : List (World × Move)) (c : ConnectionId) (m : Message) : Prop :=
  ∃ v j, (v, .advance j) ∈ past ∧ (v.hub.task j).offer? = some (c, m) ∧
    (v.hub.subscriber c).Admits m.id

section Run

variable {capacity replays : Nat} {start : Instant} {before past : List (World × Move)}
  {w₀ w : World} {c : ConnectionId}

/-- While its replays fail, a connection is sent an event only by a tick. -/
theorem letThrough_of_mem (reach : Run Possible (.new capacity replays start) before w₀)
    (hstart : w₀.Restorable c) (hopen : c < w₀.hub.opened) (run : Run (Fruitless c) w₀ past w)
    (hatt : ∀ v, Visited past w v → v.Attached c) {m : Message}
    (hold : m ∉ (w₀.hub.subscriber c).messages) (hq : m ∈ (w.hub.subscriber c).messages) :
    LetThrough past c m := by
  induction run with
  | nil => exact absurd hq hold
  | @cons past w move run hm ih =>
      have hatt' : ∀ v, Visited past w v → v.Attached c := fun v hv => hatt v hv.cons
      by_cases hbefore : m ∈ (w.hub.subscriber c).messages
      · obtain ⟨v, j, hv, h⟩ := ih hatt' hbefore
        exact ⟨v, j, List.mem_cons_of_mem _ hv, h⟩
      · have hw := tidy_of_run (reach.append (possible_of_fruitless run))
        rcases (effect hw hm.possible).queued_cases c with
          hsame | ⟨n, hn, ⟨j, rfl, ho, ha⟩ | ⟨k, r, -, ht, hr, hd⟩⟩
        · exact absurd (hsame ▸ hq) hbefore
        · obtain rfl : m = n := by simpa [hn, hbefore] using hq
          exact ⟨w, j, List.mem_cons_self, ho, ha⟩
        · have hfutile := (restorable_of_run reach hstart hopen run hatt').futile k r ht hr
          revert hd hfutile
          cases r.stage <;> simp [Replay.Stage.isDelivering, Replay.Stage.IsFutile]

theorem mem_of_letThrough (hw : w₀.hub.Tidy) (hopen : c < w₀.hub.opened)
    (run : Run Possible w₀ past w) (hatt : ∀ v, Visited past w v → v.Attached c) {m : Message}
    (h : LetThrough past c m) : m ∈ (w.hub.subscriber c).messages := by
  obtain ⟨v, j, hv, ho, ha⟩ := h
  have hnext := hatt _ (run.visited_apply hv)
  have hhere := hatt v (.inr ⟨_, hv⟩)
  obtain ⟨earlier, later, -, hearlier, -, hlater⟩ := run.split hv
  have hlt := Nat.lt_of_lt_of_le hopen hearlier.opened_le
  have hlt' := Nat.lt_of_lt_of_le hlt (opened_le_apply v (.advance j))
  refine (messages_grow_of_run hlater (tidy_apply (tidy_of_tidy hearlier hw) trivial) c).subset ?_
  exact mem_of_offer ho ha (hhere hlt).2.2 (hnext hlt').2.1

end Run

/-- A replay has begun and waits for its history; a tick has found an event. -/
def foundInReplay : List Move :=
  [Move.subscribe 0 ⟨.systemEvents, some .epoch⟩] ++ List.replicate 5 (Move.advance 1) ++
  [Move.append (policyAt 500000), .startTick, .advance 2,
    .answer 2 (.ok [(policyAt 500000).event 1]), .advance 2]

/-- The tick announces the event and closes, the history fails, and another tick finds nothing. -/
def failedAfterTick : List Move :=
  List.replicate 5 (Move.advance 2) ++ [Move.answer 1 (.error .aborted)] ++
  List.replicate 3 (Move.advance 1) ++ [Move.startTick, .advance 3, .answer 3 (.ok []), .advance 3]

end World

end EventStream
