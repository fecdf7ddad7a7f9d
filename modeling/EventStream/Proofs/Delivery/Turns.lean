import EventStream.Proofs.World.Lock

/-! The order in which the replays of a connection get in line for its lock. Nobody gets in line
twice, and those in line are the last who have. -/

namespace EventStream

namespace Replay

theorem ne_arriving_of_next {announced : Int} {request : Subscription} {stage stage' : Stage}
    {s t : Subscriber} (hn : Next announced request stage s stage' t) : stage' ≠ .arriving := by
  rintro rfl
  cases hn

theorem queue_of_next {announced : Int} {request : Subscription} {stage stage' : Stage}
    {s t : Subscriber} (hn : Next announced request stage s stage' t) (k : TaskId)
    (line : List TaskId) :
    queue k stage' line = line ∨ stage = .arriving ∧ stage' = .awaitingLock ∨
      stage' = .ended := by
  cases hn with
  | arrive => exact .inr (.inl ⟨rfl, rfl⟩)
  | _ => first | exact .inl rfl | exact .inr (.inr rfl)

end Replay

namespace World

/-- The tasks that get in line for the lock of the connection at this move. -/
def joins (c : ConnectionId) (w : World) (m : Move) : List TaskId :=
  ((w.apply m).hub.lockLine c).filter (· ∉ w.hub.lockLine c)

/-- All tasks that have got in line in a run, in that order. -/
def arrivals (c : ConnectionId) : List (World × Move) → List TaskId
  | [] => []
  | (w, m) :: past => arrivals c past ++ joins c w m

/-- The lock is fair: no replay of the connection gets in line for it while one that was asked for
before is still on its way there. -/
def InTurn (c : ConnectionId) (w : World) (m : Move) : Prop :=
  ∀ k ∈ joins c w m, ∀ j < k, ∀ r, w.hub.task j = .replay r → r.connection = c →
    r.stage ≠ .arriving

/-- What a move does to the line of a connection: a replay joins it, or one may leave it. -/
theorem Effect.lockLine {w w' : World} {m : Move} (h : Effect w m w') (c : ConnectionId) :
    w'.hub.lockLine c = w.hub.lockLine c ∨
      (∃ k r, w.hub.task k = .replay r ∧ r.connection = c ∧ r.stage = .arriving ∧
        w'.hub.task = update w.hub.task k (.replay { r with stage := .awaitingLock }) ∧
        w'.hub.lockLine c = w.hub.lockLine c ++ [k]) ∨
      ∃ k, w'.hub.lockLine c = (w.hub.lockLine c).filter (· ≠ k) := by
  cases h with
  | inert _ hi => exact .inl (by rw [hi.lockLine])
  | @replay k r stage s h' ht hn hm =>
      have hline : h'.lockLine c = update w.hub.lockLine r.connection
          (Replay.queue k stage (w.hub.lockLine r.connection)) c := by rw [hm.lockLine]
      change h'.lockLine c = _ ∨ _
      by_cases hc : c = r.connection
      · subst hc
        rw [update_self] at hline
        rcases Replay.queue_of_next hn k (w.hub.lockLine r.connection) with hq | ⟨hs, rfl⟩ | rfl
        · exact .inl (hline.trans hq)
        · exact .inr (.inl ⟨k, r, ht, rfl, hs, hm.task, hline⟩)
        · exact .inr (.inr ⟨k, hline⟩)
      · exact .inl (hline.trans (update_of_ne _ _ hc))
  | _ => exact .inl rfl

/-- Who is on the way to the line has been so before, or has just been asked for. -/
theorem Effect.arriving {w w' : World} {m : Move} (h : Effect w m w') {k : TaskId} {r : Replay}
    (hk : w'.hub.task k = .replay r) (hr : r.stage = .arriving) :
    w.hub.task k = .replay r ∨ k = w.hub.started := by
  have hc := h.came k
  rw [hk] at hc
  cases hc with
  | stays _ ht => exact .inl ht
  | subscribes heq => exact .inr heq
  | answersReplay => cases hr
  | movesReplay _ hn => exact absurd hr (Replay.ne_arriving_of_next hn)

/-- Those who have got in line are replays of the connection, each of them once, and whoever is
in line has got there. -/
structure Lined (c : ConnectionId) (past : List (World × Move)) (w : World) : Prop where
  line : ∀ k ∈ w.hub.lockLine c, k ∈ arrivals c past
  arrived : ∀ k ∈ arrivals c past, ∃ r, w.hub.task k = .replay r ∧ r.connection = c ∧
    r.stage ≠ .arriving
  nodup : (arrivals c past).Nodup

section Step

variable {c : ConnectionId} {w : World} {m : Move} {past : List (World × Move)}

theorem joins_of_eq (h : (w.apply m).hub.lockLine c = w.hub.lockLine c) : joins c w m = [] := by
  simp [joins, h]

theorem joins_of_filter {k : TaskId}
    (h : (w.apply m).hub.lockLine c = (w.hub.lockLine c).filter (· ≠ k)) : joins c w m = [] := by
  simp only [joins, h, List.filter_eq_nil_iff, List.mem_filter]
  grind

theorem joins_of_append {k : TaskId} (h : (w.apply m).hub.lockLine c = w.hub.lockLine c ++ [k])
    (hk : k ∉ w.hub.lockLine c) : joins c w m = [k] := by
  simp [joins, h, List.filter_append, hk]

theorem Lined.not_mem_of_arriving (h : Lined c past w) {k : TaskId} {r : Replay}
    (hk : w.hub.task k = .replay r) (hr : r.stage = .arriving) : k ∉ arrivals c past := by
  intro hmem
  obtain ⟨q, hq, -, hne⟩ := h.arrived k hmem
  rw [hk] at hq
  cases hq
  exact hne hr

/-- A replay that has got in line has left its way there for good. -/
theorem Lined.arrived_step (h : Lined c past w) (hw : w.hub.Tidy) (he : Effect w m (w.apply m))
    {k : TaskId} (hk : k ∈ arrivals c past) :
    ∃ r, (w.apply m).hub.task k = .replay r ∧ r.connection = c ∧ r.stage ≠ .arriving := by
  obtain ⟨r, hr, hc, hne⟩ := h.arrived k hk
  obtain ⟨stage, hr'⟩ := he.replay_task hw hr
  refine ⟨_, hr', hc, fun harriving => ?_⟩
  rcases he.arriving hr' harriving with hold | hnew
  · rw [hr] at hold
    exact hne ((congrArg Replay.stage (Task.replay.inj hold)).trans harriving)
  · exact Nat.ne_of_lt (hw.lt_started_of_replay hr) hnew

theorem lined_step (h : Lined c past w) (hw : w.hub.Tidy) (he : Effect w m (w.apply m)) :
    Lined c ((w, m) :: past) (w.apply m) := by
  have hkeep : joins c w m = [] → (∀ k ∈ (w.apply m).hub.lockLine c, k ∈ w.hub.lockLine c) →
      Lined c ((w, m) :: past) (w.apply m) := by
    intro hnone hsub
    have hsame : arrivals c ((w, m) :: past) = arrivals c past := by simp [arrivals, hnone]
    refine ⟨fun k hk => ?_, fun k hk => ?_, ?_⟩
    · rw [hsame]
      exact h.line k (hsub k hk)
    · rw [hsame] at hk
      exact h.arrived_step hw he hk
    · rw [hsame]
      exact h.nodup
  rcases he.lockLine c with hl | ⟨k, r, hk, hc, hr, ht, hl⟩ | ⟨k, hl⟩
  · exact hkeep (joins_of_eq hl) fun k hk => hl ▸ hk
  · have hnew := h.not_mem_of_arriving hk hr
    have hjoins := joins_of_append hl fun hmem => hnew (h.line k hmem)
    have hmore : arrivals c ((w, m) :: past) = arrivals c past ++ [k] := by
      simp [arrivals, hjoins]
    refine ⟨fun j hj => ?_, fun j hj => ?_, ?_⟩
    · rw [hl] at hj
      rw [hmore]
      exact List.mem_append.mpr ((List.mem_append.mp hj).imp_left (h.line j))
    · rw [hmore] at hj
      rcases List.mem_append.mp hj with hj | hj
      · exact h.arrived_step hw he hj
      · obtain rfl := List.mem_singleton.mp hj
        exact ⟨{ r with stage := .awaitingLock }, by rw [ht, update_self], hc, by simp⟩
    · rw [hmore]
      exact List.nodup_append.mpr ⟨h.nodup, by simp, by grind⟩
  · exact hkeep (joins_of_filter hl) fun j hj => (List.mem_filter.mp (hl ▸ hj)).1

/-- Got in line in the order of their numbers, before all who are on their way there. -/
structure Sorted (c : ConnectionId) (past : List (World × Move)) (w : World) : Prop where
  ascending : (arrivals c past).Pairwise (· < ·)
  ahead : ∀ k ∈ arrivals c past, ∀ j r, w.hub.task j = .replay r → r.connection = c →
    r.stage = .arriving → k < j

theorem sorted_step (h : Sorted c past w) (hlined : Lined c past w) (hw : w.hub.Tidy)
    (he : Effect w m (w.apply m)) (hturn : InTurn c w m) :
    Sorted c ((w, m) :: past) (w.apply m) := by
  have hahead : ∀ k ∈ arrivals c past, ∀ j r, (w.apply m).hub.task j = .replay r →
      r.connection = c → r.stage = .arriving → k < j := by
    intro k hk j r hj hc hr
    rcases he.arriving hj hr with hold | rfl
    · exact h.ahead k hk j r hold hc hr
    · obtain ⟨q, hq, -⟩ := hlined.arrived k hk
      exact hw.lt_started_of_replay hq
  have hkeep : joins c w m = [] → Sorted c ((w, m) :: past) (w.apply m) := by
    intro hnone
    have hsame : arrivals c ((w, m) :: past) = arrivals c past := by simp [arrivals, hnone]
    exact ⟨hsame ▸ h.ascending, hsame ▸ hahead⟩
  rcases he.lockLine c with hl | ⟨k, r, hk, hc, hr, ht, hl⟩ | ⟨k, hl⟩
  · exact hkeep (joins_of_eq hl)
  · have hnew := hlined.not_mem_of_arriving hk hr
    have hjoins := joins_of_append hl fun hmem => hnew (hlined.line k hmem)
    have hmore : arrivals c ((w, m) :: past) = arrivals c past ++ [k] := by
      simp [arrivals, hjoins]
    refine ⟨?_, ?_⟩
    · rw [hmore]
      refine List.pairwise_append.mpr ⟨h.ascending, List.pairwise_singleton _ _, ?_⟩
      intro a ha b hb
      obtain rfl := List.mem_singleton.mp hb
      exact h.ahead a ha b r hk hc hr
    · rw [hmore]
      intro a ha j q hj hq hstage
      rcases List.mem_append.mp ha with ha | ha
      · exact hahead a ha j q hj hq hstage
      · obtain rfl := List.mem_singleton.mp ha
        rcases he.arriving hj hstage with hold | rfl
        · have hne : j ≠ a := by
            rintro rfl
            rw [ht, update_self] at hj
            cases hj
            cases hstage
          have hle : ¬ j < a := fun hlt =>
            hturn a (by rw [hjoins]; exact List.mem_singleton_self a) j hlt q hold hq hstage
          exact Nat.lt_of_le_of_ne (Nat.not_lt.mp hle) (Ne.symm hne)
        · exact hw.lt_started_of_replay hk
  · exact hkeep (joins_of_filter hl)

end Step

section Run

variable {capacity replays : Nat} {start : Instant} {past : List (World × Move)} {w : World}

theorem lined_of_run (run : Run Possible (.new capacity replays start) past w)
    (c : ConnectionId) : Lined c past w := by
  induction run with
  | nil => exact ⟨fun k hk => (nomatch hk), fun k hk => (nomatch hk), .nil⟩
  | cons run hm ih =>
      exact lined_step ih (tidy_of_run run) (effect (tidy_of_run run) hm)

/-- Replays that get in line in turn do so in the order of their subscriptions. -/
theorem sorted_of_run (run : Run Possible (.new capacity replays start) past w)
    {c : ConnectionId} (hturn : ∀ p ∈ past, InTurn c p.1 p.2) : Sorted c past w := by
  induction run with
  | nil => exact ⟨.nil, fun k hk => nomatch hk⟩
  | @cons past w m run hm ih =>
      exact sorted_step (ih fun p hp => hturn p (List.mem_cons_of_mem _ hp)) (lined_of_run run c)
        (tidy_of_run run) (effect (tidy_of_run run) hm) (hturn (w, m) List.mem_cons_self)

end Run

end World

end EventStream
