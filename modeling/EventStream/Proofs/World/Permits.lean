import EventStream.Proofs.World.Lock

/-! Locks and permits. Whoever holds a permit holds its connection's lock, every permit is free or
held by a replay that has not ended, and a replay that has ended stands in no line. -/

namespace EventStream

/-! ### Holding and waiting -/

namespace Replay

/-- Waits for the lock or holds it. -/
def Stage.isInLine : Stage → Bool
  | arriving => false
  | ended => false
  | _ => true

def Stage.awaitsPermit : Stage → Bool
  | awaitingPermit => true
  | _ => false

theorem Stage.holdsLock_of_holdsPermit {stage : Stage} (h : stage.holdsPermit = true) :
    stage.holdsLock = true := by
  cases stage <;> first | rfl | cases h

theorem Stage.isInLine_of_holdsLock {stage : Stage} (h : stage.holdsLock = true) :
    stage.isInLine = true := by
  cases stage <;> first | rfl | cases h

theorem Stage.holdsLock_of_isInLine {stage : Stage} (h : stage.isInLine = true) :
    stage = .awaitingLock ∨ stage.holdsLock = true := by
  cases stage <;> first | exact .inl rfl | exact .inr rfl | cases h

theorem Stage.eq_of_awaitsPermit {stage : Stage} (h : stage.awaitsPermit = true) :
    stage = .awaitingPermit := by
  cases stage <;> first | rfl | cases h

theorem Stage.awaitsPermit_of_holdsPermit {stage : Stage} (h : stage.holdsPermit = true) :
    stage.awaitsPermit = false := by
  cases stage <;> first | rfl | cases h

end Replay

namespace Task

def isTick : Task → Bool
  | replay _ => false
  | tick _ => true

def isInLine (c : ConnectionId) : Task → Bool
  | replay r => r.connection = c && r.stage.isInLine
  | tick _ => false

def holdsLock (c : ConnectionId) : Task → Bool
  | replay r => r.connection = c && r.stage.holdsLock
  | tick _ => false

def awaitsPermit : Task → Bool
  | replay r => r.stage.awaitsPermit
  | tick _ => false

def holdsPermit : Task → Bool
  | replay r => r.stage.holdsPermit
  | tick _ => false

theorem of_holdsLock {t : Task} {c : ConnectionId} (h : t.holdsLock c = true) :
    ∃ r, t = .replay r ∧ r.connection = c ∧ r.stage.holdsLock = true := by
  cases t with
  | replay r => exact ⟨r, rfl, by simpa [holdsLock] using h⟩
  | tick stage => cases h

theorem of_isInLine {t : Task} {c : ConnectionId} (h : t.isInLine c = true) :
    ∃ r, t = .replay r ∧ r.connection = c ∧ r.stage.isInLine = true := by
  cases t with
  | replay r => exact ⟨r, rfl, by simpa [isInLine] using h⟩
  | tick stage => cases h

theorem of_awaitsPermit {t : Task} (h : t.awaitsPermit = true) :
    ∃ r, t = .replay r ∧ r.stage = .awaitingPermit := by
  cases t with
  | replay r => exact ⟨r, rfl, Replay.Stage.eq_of_awaitsPermit h⟩
  | tick stage => cases h

theorem of_holdsPermit {t : Task} (h : t.holdsPermit = true) :
    ∃ r, t = .replay r ∧ r.stage.holdsPermit = true := by
  cases t with
  | replay r => exact ⟨r, rfl, h⟩
  | tick stage => cases h

/-- A permit is held together with the lock. -/
theorem exists_holdsLock_of_holdsPermit {t : Task} (h : t.holdsPermit = true) :
    ∃ c, t.holdsLock c = true := by
  cases t with
  | replay r => exact ⟨r.connection, by simpa [holdsLock] using r.stage.holdsLock_of_holdsPermit h⟩
  | tick stage => cases h

/-- A task that has ended has nothing and waits for nothing. -/
theorem idle_of_isEnded {t : Task} (h : t.isEnded = true) :
    t.holdsPermit = false ∧ t.awaitsPermit = false ∧
      ∀ c, t.holdsLock c = false ∧ t.isInLine c = false := by
  rcases eq_of_isEnded h with ⟨r, rfl⟩ | ⟨outcome, rfl⟩
  · exact ⟨rfl, rfl, fun _ => ⟨Bool.and_false _, Bool.and_false _⟩⟩
  · exact ⟨rfl, rfl, fun _ => ⟨rfl, rfl⟩⟩

end Task

namespace Hub

/-- The tasks that hold a permit. -/
def permitHolders (h : Hub) : List TaskId :=
  (List.range h.started).filter fun k => (h.task k).holdsPermit

/-- The tasks that hold the lock of the connection. -/
def lockHolders (h : Hub) (c : ConnectionId) : List TaskId :=
  (List.range h.started).filter fun k => (h.task k).holdsLock c

theorem isEnded_of_mem_unfinished {h : Hub} {k : TaskId} (hk : k ∈ h.unfinished) :
    (h.task k).isEnded = false := by
  simpa using (List.mem_filter.mp hk).2

theorem isEnded_of_unfinished_eq_nil {h : Hub} (hh : h.Tidy) (hnone : h.unfinished = [])
    (k : TaskId) : (h.task k).isEnded = true := by
  cases hk : (h.task k).isEnded with
  | true => rfl
  | false =>
      have hmem : k ∈ h.unfinished :=
        List.mem_filter.mpr ⟨List.mem_range.mpr (hh.lt_started hk), by rw [hk]; rfl⟩
      rw [hnone] at hmem
      cases hmem

end Hub

/-! ### Moves of a replay -/

/-- The line for a connection's lock, the free permits and the line for them. -/
structure Supply where
  lockLine : List TaskId
  permits : Nat
  permitLine : List TaskId

namespace Replay

/-- What a replay's way from one stage to another takes from the supply or brings back. -/
inductive Draws (k : TaskId) : Stage → Stage → Supply → Supply → Prop
  | arrive {line n wait} :
      Draws k .arriving .awaitingLock ⟨line, n, wait⟩ ⟨line ++ [k], n, wait⟩
  | lock {line n wait} :
      Draws k .awaitingLock .awaitingPermit ⟨line, n, wait⟩ ⟨line, n, wait ++ [k]⟩
  | grant {line n wait} :
      Draws k .awaitingPermit .admitted ⟨line, n + 1, k :: wait⟩ ⟨line, n, wait⟩
  | goOn {stage stage' supply} (hp : stage.holdsPermit = true) (hp' : stage'.holdsPermit = true) :
      Draws k stage stage' supply supply
  | finish {stage line n wait} (hs : stage ≠ .ended) :
      Draws k stage .ended ⟨line, n, wait⟩
        ⟨line.filter (· ≠ k), if stage.holdsPermit then n + 1 else n, wait.filter (· ≠ k)⟩

section Draws

variable {k : TaskId} {stage stage' : Stage} {supply supply' : Supply}

/-- Only the replay itself gets into the line for the lock or out of it. -/
theorem Draws.mem_lockLine (h : Draws k stage stage' supply supply')
    (hk : k ∈ supply.lockLine ↔ stage.isInLine = true) (j : TaskId) :
    j ∈ supply'.lockLine ↔ if j = k then stage'.isInLine = true else j ∈ supply.lockLine := by
  by_cases hj : j = k
  · subst hj
    cases h with
    | goOn hp hp' =>
        have hin := Stage.isInLine_of_holdsLock (Stage.holdsLock_of_holdsPermit hp)
        have hin' := Stage.isInLine_of_holdsLock (Stage.holdsLock_of_holdsPermit hp')
        simp [hk, hin, hin']
    | finish => simp [Stage.isInLine]
    | _ => simp_all [Stage.isInLine]
  · cases h <;> simp [hj]

theorem Draws.mem_permitLine (h : Draws k stage stage' supply supply')
    (hk : k ∈ supply.permitLine ↔ stage.awaitsPermit = true) (hn : supply.permitLine.Nodup)
    (j : TaskId) :
    j ∈ supply'.permitLine ↔
      if j = k then stage'.awaitsPermit = true else j ∈ supply.permitLine := by
  by_cases hj : j = k
  · subst hj
    cases h with
    | goOn hp hp' =>
        simp [hk, Stage.awaitsPermit_of_holdsPermit hp, Stage.awaitsPermit_of_holdsPermit hp']
    | grant => simpa [Stage.awaitsPermit] using (List.nodup_cons.mp hn).1
    | finish => simp [Stage.awaitsPermit]
    | _ => simp_all [Stage.awaitsPermit]
  · cases h <;> simp [hj]

theorem Draws.nodup (h : Draws k stage stage' supply supply')
    (hk : k ∈ supply.permitLine ↔ stage.awaitsPermit = true) (hn : supply.permitLine.Nodup) :
    supply'.permitLine.Nodup := by
  cases h with
  | @lock _ _ wait =>
      have hnot : k ∉ wait := fun hmem => by simpa [Stage.awaitsPermit] using hk.mp hmem
      simpa [List.nodup_append] using ⟨hn, fun a ha => ne_of_mem_of_not_mem ha hnot⟩
  | grant => exact (List.nodup_cons.mp hn).2
  | finish => exact hn.filter _
  | _ => exact hn

/-- What a replay holds is missing from the permits. -/
theorem Draws.permits (h : Draws k stage stage' supply supply') :
    supply'.permits + stage'.holdsPermit.toNat = supply.permits + stage.holdsPermit.toNat := by
  cases h with
  | goOn hp hp' => rw [hp, hp']
  | @finish stage _ n _ =>
      change (if stage.holdsPermit then n + 1 else n) + 0 = n + stage.holdsPermit.toNat
      cases stage.holdsPermit <;> rfl
  | _ => rfl

end Draws

end Replay

namespace Hub

def supply (h : Hub) (c : ConnectionId) : Supply := ⟨h.lockLine c, h.permits, h.permitLine⟩

theorem draws_setStage (h : Hub) (k : TaskId) {r : Replay} {stage : Replay.Stage}
    (hp : r.stage.holdsPermit = true) (hp' : stage.holdsPermit = true) :
    (h.setStage k r stage).task k = .replay { r with stage } ∧
      Replay.Draws k r.stage stage (h.supply r.connection)
        ((h.setStage k r stage).supply r.connection) :=
  ⟨update_self .., .goOn hp hp'⟩

theorem draws_finish (h : Hub) (k : TaskId) {r : Replay} (hs : r.stage ≠ .ended) :
    (h.finish k r).task k = .replay { r with stage := .ended } ∧
      Replay.Draws k r.stage .ended (h.supply r.connection)
        ((h.finish k r).supply r.connection) := by
  refine ⟨update_self .., ?_⟩
  have hline : (h.finish k r).lockLine r.connection =
      (h.lockLine r.connection).filter (· ≠ k) := update_self ..
  rw [supply, supply, hline]
  exact .finish hs

/-- `h'` is what `h` has become by replay `r`, task `k`, going on from its stage. -/
def DrawnBy (h : Hub) (k : TaskId) (r : Replay) (h' : Hub) : Prop :=
  ∃ stage, h'.task k = .replay { r with stage } ∧
    Replay.Draws k r.stage stage (h.supply r.connection) (h'.supply r.connection)

section DrawnBy

variable {h h' : Hub} {k : TaskId} {r : Replay}

/-- Whatever becomes of the subscriber, the replay goes on with its permit. -/
theorem drawnBy_setStage {stage : Replay.Stage} (s : Subscriber)
    (hp : r.stage.holdsPermit = true) (hp' : stage.holdsPermit = true) :
    h.DrawnBy k r ((h.setSubscriber r.connection s).setStage k r stage) :=
  ⟨stage, draws_setStage (h.setSubscriber r.connection s) k hp hp'⟩

theorem drawnBy_finish (s : Subscriber) (hs : r.stage ≠ .ended) :
    h.DrawnBy k r ((h.setSubscriber r.connection s).finish k r) :=
  ⟨.ended, draws_finish (h.setSubscriber r.connection s) k hs⟩

theorem drawnBy_deliver {purpose : Replay.Purpose} {left : List Event} {newest : Option Instant}
    (hr : r.stage = .delivering purpose left newest) :
    h.DrawnBy k r (h.deliver k r purpose left newest) := by
  have hp : r.stage.holdsPermit = true := by rw [hr]; rfl
  have hne : r.stage ≠ .ended := by rw [hr]; simp
  simp only [deliver]
  repeat' split
  all_goals first
    | exact drawnBy_setStage _ hp rfl
    | exact drawnBy_finish _ hne
    | exact ⟨_, draws_setStage h k hp rfl⟩
    | exact ⟨_, draws_finish h k hne⟩

/-- A replay that holds a permit keeps it or ends. -/
theorem drawnBy_advanceReplay (hp : r.stage.holdsPermit = true)
    (hask : ∀ purpose, r.stage ≠ .asking purpose) : h.DrawnBy k r (h.advanceReplay k r) := by
  have hne : r.stage ≠ .ended := by
    intro hs
    rw [hs] at hp
    cases hp
  cases hs : r.stage with
  | arriving => rw [hs] at hp; cases hp
  | awaitingLock => rw [hs] at hp; cases hp
  | awaitingPermit => rw [hs] at hp; cases hp
  | asking purpose => exact absurd hs (hask purpose)
  | ended => exact absurd hs hne
  | delivering purpose left newest =>
      simpa only [advanceReplay, hs] using drawnBy_deliver hs
  | admitted =>
      simp only [advanceReplay, hs]
      split <;> exact drawnBy_setStage _ hp rfl
  | answered purpose answer =>
      simp only [advanceReplay, hs]
      split <;> first
        | exact ⟨_, draws_setStage h k hp rfl⟩
        | exact absurd ‹_› (by simp)
  | reconciling cursor floor =>
      simp only [advanceReplay, hs]
      split <;> first
        | exact drawnBy_setStage _ hp rfl
        | exact drawnBy_finish _ hne
  | confirming mode =>
      simp only [advanceReplay, hs]
      exact drawnBy_finish _ hne
  | aborting previous =>
      simp only [advanceReplay, hs]
      exact drawnBy_finish _ hne
  | opening previous cursor =>
      simp only [advanceReplay, hs]
      exact ⟨_, draws_setStage h k hp rfl⟩
  | settling cursor floor =>
      simp only [advanceReplay, hs]
      exact drawnBy_setStage _ hp rfl
  | lagging cursor floor highWater =>
      simp only [advanceReplay, hs]
      exact ⟨_, draws_setStage h k hp rfl⟩
  | reporting previous =>
      simp only [advanceReplay, hs]
      exact drawnBy_setStage _ hp rfl

/-- Every move of a replay is one of the five: it gets in line, takes the lock, takes a permit,
goes on with both, or ends. -/
theorem drawnBy_advance (ht : h.task k = .replay r) (hcan : h.canAdvance k = true) :
    h.DrawnBy k r (h.advance k) := by
  cases hdrop : h.isDropped k r with
  | true =>
      have hw := isWaiting_of_isDropped hdrop
      have hne : r.stage ≠ .ended := by
        intro hs
        rw [hs] at hw
        cases hw
      simp only [advance, hcan, ite_true, ht, hdrop]
      exact ⟨_, draws_finish h k hne⟩
  | false =>
      simp only [advance, hcan, ite_true, ht, hdrop, Bool.false_eq_true, ite_false]
      have hgo := isServed_of_not_isDropped ht hcan hdrop
      by_cases hp : r.stage.holdsPermit = true
      · exact drawnBy_advanceReplay hp fun purpose hs => by simp [isServed, hs] at hgo
      · obtain ⟨c, request, stage⟩ := r
        cases stage with
        | arriving =>
            refine ⟨.awaitingLock, update_self .., ?_⟩
            have hline : (h.advanceReplay k ⟨c, request, .arriving⟩).lockLine c =
                h.lockLine c ++ [k] := update_self ..
            rw [supply, supply, hline]
            exact .arrive
        | awaitingLock => exact ⟨.awaitingPermit, update_self .., .lock⟩
        | awaitingPermit =>
            refine ⟨.admitted, update_self .., ?_⟩
            have hserved : h.permitLine.head? = some k ∧ 0 < h.permits := by
              simpa [isServed] using hgo
            obtain ⟨wait, hwait⟩ := List.head?_eq_some_iff.mp hserved.1
            have hbefore : h.supply c = ⟨h.lockLine c, h.permits - 1 + 1, k :: wait⟩ := by
              rw [supply, hwait, Nat.sub_add_cancel hserved.2]
            have hafter : (h.advanceReplay k ⟨c, request, .awaitingPermit⟩).supply c =
                ⟨h.lockLine c, h.permits - 1, wait⟩ := by
              change Supply.mk _ _ h.permitLine.tail = _
              rw [hwait]
              rfl
            rw [hbefore, hafter]
            exact .grant
        | ended => simp [isServed] at hgo
        | _ => exact absurd rfl hp

end DrawnBy

/-! ### What is accounted for -/

/-- In line for a lock are the replays of its connection that wait for it or hold it, in line for
the permits those that wait for one, and each of the permits is free or held. -/
structure Accounted (total : Nat) (h : Hub) : Prop where
  lockLine : ∀ c k, k ∈ h.lockLine c ↔ (h.task k).isInLine c = true
  permitLine : ∀ k, k ∈ h.permitLine ↔ (h.task k).awaitsPermit = true
  nodup : h.permitLine.Nodup
  permits : h.permits + h.permitHolders.length = total

/-- Where two tests differ at `k` at most, what they let through differs by `k`. -/
theorem length_filter_range (p p' : Nat → Bool) {n k : Nat} (hk : k < n)
    (h : ∀ j, j ≠ k → p' j = p j) :
    ((List.range n).filter p').length + (p k).toNat =
      ((List.range n).filter p).length + (p' k).toNat := by
  have hlast : ∀ (q : Nat → Bool) n, ((List.range (n + 1)).filter q).length =
      ((List.range n).filter q).length + (q n).toNat := by
    intro q n
    rw [List.range_succ, List.filter_append, List.length_append]
    cases hq : q n <;> simp [hq]
  induction n with
  | zero => omega
  | succ n ih =>
      rw [hlast, hlast]
      by_cases hkn : k = n
      · subst hkn
        rw [List.filter_congr fun j hj => h j (Nat.ne_of_lt (List.mem_range.mp hj))]
        omega
      · have := ih (by omega)
        rw [h n (Ne.symm hkn)]
        omega

section Step

variable {total : Nat} {h h' : Hub} {k : TaskId} {t : Task}

/-- One task changes: the number of permits held changes with it. -/
theorem length_permitHolders_update (hk : k < h.started) (ht : h'.task = update h.task k t)
    (hs : h'.started = h.started) :
    h'.permitHolders.length + (h.task k).holdsPermit.toNat =
      h.permitHolders.length + t.holdsPermit.toNat := by
  have h := length_filter_range (fun j => (h.task j).holdsPermit)
    (fun j => (h'.task j).holdsPermit) hk fun j hj => by rw [ht, update_of_ne _ _ hj]
  simpa only [permitHolders, hs, ht, update_self] using h

/-- One task changes, and lines and permits with it. -/
theorem Accounted.of_update (ha : h.Accounted total) (hk : k < h.started)
    (ht : h'.task = update h.task k t) (hs : h'.started = h.started)
    (hline : ∀ c j, j ∈ h'.lockLine c ↔
      if j = k then t.isInLine c = true else j ∈ h.lockLine c)
    (hwait : ∀ j, j ∈ h'.permitLine ↔ if j = k then t.awaitsPermit = true else j ∈ h.permitLine)
    (hnodup : h'.permitLine.Nodup)
    (hpermits : h'.permits + t.holdsPermit.toNat =
      h.permits + (h.task k).holdsPermit.toNat) : h'.Accounted total where
  lockLine := by
    intro c j
    rw [hline, ht]
    by_cases hj : j = k
    · subst hj; simp
    · rw [update_of_ne _ _ hj, if_neg hj]; exact ha.lockLine c j
  permitLine := by
    intro j
    rw [hwait, ht]
    by_cases hj : j = k
    · subst hj; simp
    · rw [update_of_ne _ _ hj, if_neg hj]; exact ha.permitLine j
  nodup := hnodup
  permits := by
    have hcount := length_permitHolders_update hk ht hs
    have hbefore := ha.permits
    omega

/-- A change of the hub in which no lock and no permit has a part. -/
structure SameSupply (h h' : Hub) : Prop where
  lockLine : h'.lockLine = h.lockLine
  permits : h'.permits = h.permits
  permitLine : h'.permitLine = h.permitLine

theorem Accounted.still (ha : h.Accounted total) (hs : SameSupply h h') (ht : h'.task = h.task)
    (hn : h'.started = h.started) : h'.Accounted total where
  lockLine := by rw [hs.lockLine, ht]; exact ha.lockLine
  permitLine := by rw [hs.permitLine, ht]; exact ha.permitLine
  nodup := by rw [hs.permitLine]; exact ha.nodup
  permits := by rw [hs.permits, permitHolders, hn, ht]; exact ha.permits

/-- A task changes that holds and awaits as much as before. -/
theorem Accounted.alike (ha : h.Accounted total) (hs : SameSupply h h') (hk : k < h.started)
    (ht : h'.task = update h.task k t) (hn : h'.started = h.started)
    (hline : ∀ c, t.isInLine c = (h.task k).isInLine c)
    (hwait : t.awaitsPermit = (h.task k).awaitsPermit)
    (hhold : t.holdsPermit = (h.task k).holdsPermit) : h'.Accounted total := by
  refine ha.of_update hk ht hn (fun c j => ?_) (fun j => ?_) (hs.permitLine ▸ ha.nodup) ?_
  · by_cases hj : j = k
    · subst hj; simp [hs.lockLine, ha.lockLine, hline]
    · simp [hs.lockLine, hj]
  · by_cases hj : j = k
    · subst hj; simp [hs.permitLine, ha.permitLine, hwait]
    · simp [hs.permitLine, hj]
  · rw [hs.permits, hhold]

/-- A new task stands in no line. -/
theorem Accounted.spawn (ha : h.Accounted total) (hh : h.Tidy) (hline : ∀ c, t.isInLine c = false)
    (hwait : t.awaitsPermit = false) (hhold : t.holdsPermit = false) :
    (h.spawn t).2.Accounted total := by
  have hnew := hh.unstarted h.started (Nat.le_refl _)
  have htask : ∀ j, j ≠ h.started → (h.spawn t).2.task j = h.task j :=
    fun j hj => update_of_ne _ _ hj
  have hself : (h.spawn t).2.task h.started = t := update_self ..
  refine ⟨fun c j => (ha.lockLine c j).trans ?_, fun j => (ha.permitLine j).trans ?_, ha.nodup, ?_⟩
  · by_cases hj : j = h.started
    · subst hj; rw [hself, hnew, hline]; rfl
    · rw [htask j hj]
  · by_cases hj : j = h.started
    · subst hj; rw [hself, hnew, hwait]; rfl
    · rw [htask j hj]
  · have hsame : (h.spawn t).2.permitHolders = h.permitHolders := by
      change (List.range (h.started + 1)).filter _ = (List.range h.started).filter _
      rw [List.range_succ, List.filter_append]
      simp only [List.filter_cons, List.filter_nil, hself, hhold, List.append_nil,
        Bool.false_eq_true, ite_false]
      refine List.filter_congr fun j hj => ?_
      rw [htask j (Nat.ne_of_lt (List.mem_range.mp hj))]
    rw [hsame]
    exact ha.permits

/-- A replay goes on, and the supply of its connection goes with it. -/
theorem Accounted.drawn (ha : h.Accounted total) (hk : k < h.started) {r : Replay}
    (hr : h.task k = .replay r) {stage : Replay.Stage} {s : Subscriber}
    (hm : h.Moved k r stage s h') (hd : h.DrawnBy k r h') : h'.Accounted total := by
  obtain ⟨stage', ht', hdraws⟩ := hd
  rw [hm.task, update_self] at ht'
  cases ht'
  have hline : k ∈ h.lockLine r.connection ↔ r.stage.isInLine = true := by
    simp [ha.lockLine, hr, Task.isInLine]
  have hwait : k ∈ h.permitLine ↔ r.stage.awaitsPermit = true := by
    simp [ha.permitLine, hr, Task.awaitsPermit]
  refine ha.of_update hk hm.task hm.started (fun c j => ?_) (hdraws.mem_permitLine hwait ha.nodup)
    (hdraws.nodup hwait ha.nodup) ?_
  · by_cases hc : c = r.connection
    · subst hc
      simpa [supply, Task.isInLine] using hdraws.mem_lockLine hline j
    · rw [hm.lockLine, update_of_ne _ _ hc]
      by_cases hj : j = k
      · subst hj
        simp [ha.lockLine, hr, Task.isInLine, Ne.symm hc]
      · rw [if_neg hj]
  · rw [hr]
    exact hdraws.permits

end Step

/-- A tick neither holds nor awaits anything. -/
theorem Accounted.ticked {total : Nat} {h : Hub} (ha : h.Accounted total) {k : TaskId}
    {stage stage' : Tick.Stage} (hk : k < h.started) (ht : h.task k = .tick stage)
    (checkpoint : Checkpoint) (subscriber : ConnectionId → Subscriber) :
    (h.Ticked k stage' checkpoint subscriber).Accounted total :=
  ha.alike ⟨rfl, rfl, rfl⟩ hk rfl rfl (fun _ => by rw [ht]; rfl) (by rw [ht]; rfl)
    (by rw [ht]; rfl)

theorem Accounted.answer {total : Nat} {h : Hub} (ha : h.Accounted total) (hh : h.Tidy)
    (k : TaskId) (a : Answer) : (h.answer k a).Accounted total := by
  cases ht : h.task k with
  | replay r =>
      simp only [Hub.answer, ht]
      split
      · next purpose hs =>
        refine ha.alike ⟨rfl, rfl, rfl⟩ (hh.lt_started_of_replay ht) rfl rfl (fun c => ?_) ?_ ?_
        · simp [ht, hs, Task.isInLine, Replay.Stage.isInLine]
        · simp [ht, hs, Task.awaitsPermit, Replay.Stage.awaitsPermit]
        · simp [ht, hs, Task.holdsPermit, Replay.Stage.holdsPermit]
      · exact ha
  | tick stage =>
      cases stage with
      | asking after =>
          simp only [Hub.answer, ht]
          exact ha.ticked (hh.lt_started_of_tick ht (by simp)) ht h.checkpoint h.subscriber
      | _ => simpa only [Hub.answer, ht] using ha

theorem Accounted.advance {total : Nat} {h : Hub} (ha : h.Accounted total) (hh : h.Tidy)
    (k : TaskId) : (h.advance k).Accounted total := by
  cases hcan : h.canAdvance k with
  | false => simpa [Hub.advance, hcan] using ha
  | true =>
      cases ht : h.task k with
      | replay r =>
          obtain ⟨stage, s, -, hm, -⟩ := advance_replay ht hcan
          exact ha.drawn (hh.lt_started_of_replay ht) ht hm (drawnBy_advance ht hcan)
      | tick stage =>
          obtain ⟨stage', checkpoint, subscriber, hn, heq⟩ := advance_tick ht hcan
          rw [heq]
          exact ha.ticked (hh.lt_started_of_tick ht (ne_ended_of_next hn _)) ht _ _

end Hub

namespace World

theorem accounted_apply {total : Nat} {w : World} {m : Move} (hw : w.hub.Tidy)
    (ha : w.hub.Accounted total) : (w.apply m).hub.Accounted total := by
  cases m with
  | append draft => simp only [apply, withLog]; split <;> exact ha
  | insertRow id row => simp only [apply, withLog]; split <;> exact ha
  | subscribe c request =>
      exact ha.spawn hw (by simp [Task.isInLine, Replay.Stage.isInLine]) rfl rfl
  | startTick => exact ha.spawn hw (fun _ => rfl) rfl rfl
  | advance k => exact ha.advance hw k
  | answer k a => exact ha.answer hw k a
  | _ => exact ha.still ⟨rfl, rfl, rfl⟩ rfl rfl

theorem accounted_new (capacity replays : Nat) (start : Instant) :
    (World.new capacity replays start).hub.Accounted (max 1 replays) where
  lockLine := by simp [World.new, Hub.new, Task.isInLine]
  permitLine := by simp [World.new, Hub.new, Task.awaitsPermit]
  nodup := List.nodup_nil
  permits := rfl

section Run

variable {capacity replays : Nat} {start : Instant} {past : List (World × Move)} {w : World}

theorem accounted_of_run (run : Run Possible (.new capacity replays start) past w) :
    w.hub.Accounted (max 1 replays) := by
  induction run with
  | nil => exact accounted_new capacity replays start
  | cons run _ ih => exact accounted_apply (tidy_of_run run) ih

/-- In every world of a run the replays that hold a permit are as many as there are permits not
free. A connection's lock has one holder at most, the first in its line, and whoever holds a
permit holds the lock of its connection. A task that has ended, in whatever way, has nothing and
stands in no line, so everything is free again when all have ended. -/
theorem permits_of_run (run : Run Possible (.new capacity replays start) past w) :
    w.hub.permitHolders.length ≤ max 1 replays ∧
    w.hub.permitHolders.length = max 1 replays - w.hub.permits ∧
    w.hub.permits ≤ max 1 replays ∧
    (∀ c, ∀ i ∈ w.hub.lockHolders c, ∀ j ∈ w.hub.lockHolders c, i = j) ∧
    (∀ c, ∀ k ∈ w.hub.lockHolders c, (w.hub.lockLine c).head? = some k) ∧
    (∀ k ∈ w.hub.permitHolders, ∃ c, k ∈ w.hub.lockHolders c) ∧
    (∀ k, (w.hub.task k).isEnded = true → k ∉ w.hub.permitHolders ∧ k ∉ w.hub.permitLine ∧
      ∀ c, k ∉ w.hub.lockHolders c ∧ k ∉ w.hub.lockLine c) ∧
    (w.hub.unfinished = [] → w.hub.permits = max 1 replays ∧ ∀ c, w.hub.lockLine c = []) := by
  have ha := accounted_of_run run
  have hl := locked_of_run run
  have hhead : ∀ c, ∀ k ∈ w.hub.lockHolders c, (w.hub.lockLine c).head? = some k := by
    intro c k hk
    obtain ⟨r, hr, rfl, hlock⟩ := Task.of_holdsLock (List.mem_filter.mp hk).2
    exact hl k r hr hlock
  have hended : ∀ k, (w.hub.task k).isEnded = true → k ∉ w.hub.permitHolders ∧
      k ∉ w.hub.permitLine ∧ ∀ c, k ∉ w.hub.lockHolders c ∧ k ∉ w.hub.lockLine c := by
    intro k hk
    have hidle := Task.idle_of_isEnded hk
    simp [Hub.permitHolders, Hub.lockHolders, ha.permitLine, ha.lockLine, hidle]
  have hpermits := ha.permits
  refine ⟨by omega, by omega, by omega, fun c i hi j hj => ?_, hhead, fun k hk => ?_, hended,
    fun hnone => ⟨?_, fun c => ?_⟩⟩
  · exact Option.some.inj ((hhead c i hi).symm.trans (hhead c j hj))
  · obtain ⟨hlt, hholds⟩ := List.mem_filter.mp hk
    obtain ⟨c, hc⟩ := Task.exists_holdsLock_of_holdsPermit hholds
    exact ⟨c, List.mem_filter.mpr ⟨hlt, hc⟩⟩
  · have hnobody : w.hub.permitHolders = [] := List.eq_nil_iff_forall_not_mem.mpr fun k =>
      (hended k (Hub.isEnded_of_unfinished_eq_nil (tidy_of_run run) hnone k)).1
    simpa [hnobody] using hpermits
  · exact List.eq_nil_iff_forall_not_mem.mpr fun k =>
      ((hended k (Hub.isEnded_of_unfinished_eq_nil (tidy_of_run run) hnone k)).2.2 c).2

end Run

/-- One permit. The first replay has it and waits for its history, the second waits for the lock
of the same connection, and the third, on another, waits for the permit. -/
def contended : List Move :=
  [Move.connect, .connect, .subscribe 0 ⟨.systemEvents, some .epoch⟩,
    .subscribe 0 ⟨.systemEvents, none⟩, .subscribe 1 ⟨.systemEvents, none⟩] ++
  List.replicate 5 (Move.advance 0) ++ [Move.advance 1, .advance 2, .advance 2]

/-- The third replay is cancelled while it waits, the first fails, the second is confirmed. -/
def released : List Move :=
  [Move.disconnect 1, .advance 2, .answer 0 (.error .aborted)] ++
  List.replicate 3 (Move.advance 0) ++ List.replicate 5 (Move.advance 1)

theorem permits_of_contended :
    let w := (new 8 1 .epoch).applyAll contended
    let w' := w.applyAll released
    w.hub.permitHolders = [0] ∧ w.hub.permits = 0 ∧ w.hub.lockLine 0 = [0, 1] ∧
      w.hub.permitLine = [2] ∧ (∃ c, 0 ∈ w.hub.lockHolders c) ∧
      w'.hub.unfinished = [] ∧ w'.hub.permits = 1 := by
  intro w w'
  have run : Run Possible (new 8 1 .epoch) ((new 8 1 .epoch).history [] contended) w :=
    Follows.run (by decide +kernel) .nil
  have run' : Run Possible (new 8 1 .epoch)
      (w.history ((new 8 1 .epoch).history [] contended) released) w' :=
    Follows.run (by decide +kernel) run
  have hholders : w.hub.permitHolders = [0] := by decide +kernel
  have hdone : w'.hub.unfinished = [] := by decide +kernel
  obtain ⟨-, hcount, hle, -, -, hnested, -⟩ := permits_of_run run
  obtain ⟨-, -, -, -, -, -, -, hfree⟩ := permits_of_run run'
  have hnone : w.hub.permits = 0 := by
    rw [hholders] at hcount
    change 1 = 1 - w.hub.permits at hcount
    omega
  exact ⟨hholders, hnone, by decide +kernel, by decide +kernel, hnested 0 (by simp [hholders]),
    hdone, (hfree hdone).1⟩

end World

end EventStream
