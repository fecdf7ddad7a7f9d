import EventStream.Proofs.Log
import EventStream.Proofs.World

/-! Ids that have been used. The log keeps the greatest of them when its row is gone, so that
an append never gives an id again, whatever was stored or taken away before. -/

namespace EventStream

/-! ### Changes of the log -/

namespace Log

variable {log log' : Log}

/-- The next id is free: rows have smaller ones. -/
theorem append_of_lt (h : log.lastId < maxId) (d : Draft) :
    ∃ log', log.append d = .ok (log.lastId + 1, log') ∧
      log'.rows = log.rows ++ [.ofDraft d (log.lastId + 1)] := by
  have hlt : ∀ r ∈ log.rows, r.id < log.lastId + 1 := fun r hr =>
    Int.lt_add_one_of_le (log.id_le_lastId r hr)
  have hfree : ∀ r ∈ log.rows, r.id ≠ log.lastId + 1 := fun r hr => Int.ne_of_lt (hlt r hr)
  refine ⟨log.insert (.ofDraft d (log.lastId + 1)) hfree, ?_, place_eq_append hlt⟩
  have htype : (Row.ofDraft d 0).eventType ≠ .null := nofun
  have hmax : ¬ (maxId ≤ log.lastId) := Int.not_le.mpr h
  simp only [append, insertRow, htype, hmax, ↓reduceIte, and_false, Option.getD_none]
  rw [dif_pos hfree]
  rfl

theorem append_of_maxId_le (h : maxId ≤ log.lastId) (d : Draft) :
    log.append d = .error .storage := by
  have htype : (Row.ofDraft d 0).eventType ≠ .null := nofun
  simp only [append, insertRow, htype, h, ↓reduceIte, and_self]

/-- One row more, or only rows that were there. -/
inductive Changed (log log' : Log) : Prop where
  | stored (row : Row) (rows : log'.rows = place row log.rows)
      (last : log'.lastId = max log.lastId row.id)
  | kept (rows : ∀ r ∈ log'.rows, r ∈ log.rows) (last : log'.lastId = log.lastId)

theorem Changed.refl (log : Log) : log.Changed log := .kept (fun _ hr => hr) rfl

theorem Changed.lastId_le (h : log.Changed log') : log.lastId ≤ log'.lastId := by
  cases h with
  | stored row _ last => omega
  | kept _ last => omega

end Log

namespace World

theorem changed_withLog (w : World) {id : Option Int} {row : Row} :
    w.log.Changed (w.withLog (w.log.insertRow id row)).log := by
  cases h : w.log.insertRow id row with
  | error e => exact .refl _
  | ok p =>
      obtain ⟨n, log⟩ := p
      obtain ⟨-, hrows, hlast⟩ := Log.insertRow_eq_ok h
      exact .stored { row with id := n } hrows hlast

theorem changed_apply (w : World) (m : Move) : w.log.Changed (w.apply m).log := by
  cases m with
  | append draft => exact changed_withLog w
  | insertRow id row => exact changed_withLog w
  | deleteRow id => exact .kept (fun r hr => (List.mem_filter.mp hr).1) rfl
  | _ => exact .refl _

/-! ### Ids that rows have had -/

/-- A row of that id is or was in the log. -/
def Used (past : List (World × Move)) (w : World) (id : Int) : Prop :=
  ∃ v, Visited past w v ∧ ∃ r ∈ v.log.rows, r.id = id

/-- An id for a new row: all that were used are smaller. -/
def Unreached (past : List (World × Move)) (w : World) (n : Int) : Prop :=
  1 ≤ n ∧ n ≤ Log.maxId ∧ ∀ id, Used past w id → id < n

variable {allowed : World → Move → Prop} {past : List (World × Move)} {w w' : World} {m : Move}

theorem used_cons_iff {id : Int} :
    Used ((w, m) :: past) w' id ↔ (∃ r ∈ w'.log.rows, r.id = id) ∨ Used past w id := by
  simp only [Used, visited_cons_iff, or_and_right, exists_or, exists_eq_left]

/-- The log knows the greatest id used. -/
structure Recorded (past : List (World × Move)) (w : World) : Prop where
  used_le : ∀ id, Used past w id → id ≤ w.log.lastId
  last : w.log.lastId = 0 ∨ Used past w w.log.lastId

theorem recorded_step (h : Recorded past w) (m : Move) :
    Recorded ((w, m) :: past) (w.apply m) := by
  have hchange := changed_apply w m
  refine ⟨fun id hid => ?_, ?_⟩
  · rcases used_cons_iff.mp hid with ⟨r, hr, rfl⟩ | hid
    · exact (w.apply m).log.id_le_lastId r hr
    · exact Int.le_trans (h.used_le id hid) hchange.lastId_le
  · -- The greatest id is an old one, or that of the row just stored.
    have hold : w.log.lastId = 0 ∨ Used ((w, m) :: past) (w.apply m) w.log.lastId :=
      h.last.imp_right fun hlast => used_cons_iff.mpr (.inr hlast)
    cases hchange with
    | kept _ last => rw [last]; exact hold
    | stored row rows last =>
        rw [last]
        rcases Int.le_total row.id w.log.lastId with hle | hle
        · rw [Int.max_eq_left hle]
          exact hold
        · rw [Int.max_eq_right hle]
          refine .inr (used_cons_iff.mpr (.inl ⟨row, ?_, rfl⟩))
          rw [rows]
          exact Log.mem_place.mpr (.inl rfl)

theorem recorded_of_run {capacity replays : Nat} {start : Instant}
    (run : Run allowed (.new capacity replays start) past w) : Recorded past w := by
  induction run with
  | nil =>
      refine ⟨fun id hid => ?_, .inl rfl⟩
      obtain ⟨v, rfl | ⟨m, hm⟩, r, hr, -⟩ := hid
      · cases hr
      · cases hm
  | cons _ _ ih => exact recorded_step ih _

theorem Recorded.unreached_next (h : Recorded past w) (hlt : w.log.lastId < Log.maxId) :
    Unreached past w (w.log.lastId + 1) := by
  have hpos := w.log.lastId_nonneg
  exact ⟨by omega, by omega, fun id hid => Int.lt_add_one_of_le (h.used_le id hid)⟩

theorem Recorded.not_unreached (h : Recorded past w) (hle : Log.maxId ≤ w.log.lastId) (n : Int) :
    ¬ Unreached past w n := by
  rintro ⟨-, hmax, hn⟩
  have hpos : 0 < Log.maxId := by decide
  rcases h.last with hlast | hlast
  · omega
  · have := hn _ hlast
    omega

/-- An append stores its row under an id that is greater than any that a row ever had, and
fails, leaving all as it is, only when there is no such id. -/
theorem append_unreached {capacity replays : Nat} {start : Instant}
    (run : Run allowed (.new capacity replays start) past w) (d : Draft) :
    (∃ n log, w.log.append d = .ok (n, log) ∧ w.apply (.append d) = { w with log } ∧
      log.rows = w.log.rows ++ [.ofDraft d n] ∧ Unreached past w n) ∨
    ((∀ n, ¬ Unreached past w n) ∧ w.log.append d = .error .storage ∧
      w.apply (.append d) = w) := by
  have hrecorded := recorded_of_run run
  by_cases hlt : w.log.lastId < Log.maxId
  · left
    obtain ⟨log, happend, hrows⟩ := Log.append_of_lt hlt d
    refine ⟨_, log, happend, ?_, hrows, hrecorded.unreached_next hlt⟩
    simp only [apply, happend, withLog]
  · right
    have herror := Log.append_of_maxId_le (Int.not_lt.mp hlt) d
    refine ⟨hrecorded.not_unreached (Int.not_lt.mp hlt), herror, ?_⟩
    simp only [apply, herror, withLog]

/-- A row under a negative id, and one short of the last that is taken away again. -/
def sparse : List Move :=
  [.append (policyAt 0), .insertRow (some (-7)) (.ofDraft (policyAt 0) 0),
    .insertRow (some (Log.maxId - 1)) (.ofDraft (policyAt 0) 0), .deleteRow (Log.maxId - 1)]

/-- The last id goes to the next append, and no append comes after it. -/
theorem append_unreached_of_sparse :
    let start := World.new 1 1 .epoch
    let next := sparse ++ [.append (policyAt 1)]
    Unreached (start.history [] sparse) (start.applyAll sparse) Log.maxId ∧
      (start.applyAll next).log.rows.map (·.id) = [-7, 1, Log.maxId] ∧
      (∀ n, ¬ Unreached (start.history [] next) (start.applyAll next) n) ∧
      (start.applyAll next).apply (.append (policyAt 1)) = start.applyAll next := by
  intro start next
  have hsparse : Follows Possible start sparse := by decide +kernel
  have hnext : Follows Possible start next := by decide +kernel
  have hid : (((start.applyAll sparse).log.append (policyAt 1)).toOption.map (·.1)) =
      some Log.maxId := by decide +kernel
  have hfull : ((start.applyAll next).log.append (policyAt 1)).toOption.isNone := by
    decide +kernel
  obtain ⟨n, log, happend, -, -, hn⟩ | ⟨-, herror, -⟩ :=
    append_unreached (hsparse.run .nil) (policyAt 1)
  · rw [happend] at hid
    cases hid
    refine ⟨hn, by decide +kernel, ?_⟩
    obtain ⟨_, _, happend', -, -, -⟩ | ⟨hnone, -, hsame⟩ :=
      append_unreached (hnext.run .nil) (policyAt 1)
    · rw [happend'] at hfull
      cases hfull
    · exact ⟨hnone, hsame⟩
  · rw [herror] at hid
    cases hid

end World

end EventStream
