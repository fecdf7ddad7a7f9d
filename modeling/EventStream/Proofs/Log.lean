import EventStream.Log
import EventStream.Proofs.Instant

/-! What queries find in the log. An event is in the log if a row decodes to it; an answered
query has exactly the events after its cursor, and what is appended later stands under ids
that nothing in the log has had. -/

namespace EventStream

theorem Row.event_eq_ok {r : Row} {e : Event} (h : r.event = .ok e) :
    e.id = r.id ∧ e.createdAt.IsWhole ∧ e.createdAt.micros = r.createdAt := by
  unfold Row.event at h
  simp only [bind, Except.bind] at h
  split at h
  · cases h
  · split at h
    · cases h
    · rename_i t ht
      have htime : Instant.ofMicros? r.createdAt = some t := by
        unfold Row.stamp Row.time at ht
        split at ht
        · split at ht
          · cases ht; assumption
          · cases ht
        · cases ht
      repeat' split at h
      all_goals cases h
      exact ⟨rfl, Instant.ofMicros?_eq_some htime⟩

namespace Log

def Holds (log : Log) (e : Event) : Prop := ∃ r ∈ log.rows, r.event = .ok e

instance (r : Row) (e : Event) : Decidable (r.event = .ok e) :=
  decidable_of_iff (r.event.toOption = some e) (by cases r.event <;> simp [Except.toOption])

instance (log : Log) (e : Event) : Decidable (log.Holds e) :=
  inferInstanceAs (Decidable (∃ r ∈ log.rows, r.event = .ok e))

theorem Holds.isWhole {log : Log} {e : Event} (h : log.Holds e) : e.createdAt.IsWhole := by
  obtain ⟨r, -, hr⟩ := h
  exact (Row.event_eq_ok hr).2.1

theorem Holds.id_le {log : Log} {e : Event} (h : log.Holds e) : e.id ≤ log.lastId := by
  obtain ⟨r, hr, he⟩ := h
  rw [(Row.event_eq_ok he).1]
  exact log.id_le_lastId r hr

/-! ### Rows by id -/

theorem rel_or_of_pairwise {α : Type} {R : α → α → Prop} {l : List α} (h : l.Pairwise R) {a b : α}
    (ha : a ∈ l) (hb : b ∈ l) : a = b ∨ R a b ∨ R b a := by
  induction l with
  | nil => cases ha
  | cons x l ih =>
      obtain ⟨hx, hl⟩ := List.pairwise_cons.mp h
      rcases List.mem_cons.mp ha with ha | ha <;> rcases List.mem_cons.mp hb with hb | hb
      · exact .inl (ha.trans hb.symm)
      · exact .inr (.inl (ha ▸ hx b hb))
      · exact .inr (.inr (hb ▸ hx a ha))
      · exact ih hl ha hb

theorem eq_of_id_eq {log : Log} {a b : Row} (ha : a ∈ log.rows) (hb : b ∈ log.rows)
    (h : a.id = b.id) : a = b := by
  rcases rel_or_of_pairwise log.ascending ha hb with hab | hab | hab
  · exact hab
  · omega
  · omega

/-- The log has one event for each id. -/
theorem Holds.eq_of_id_eq {log : Log} {d e : Event} (hd : log.Holds d) (he : log.Holds e)
    (h : d.id = e.id) : d = e := by
  obtain ⟨a, ha, hda⟩ := hd
  obtain ⟨b, hb, heb⟩ := he
  have hab : a = b := by
    apply Log.eq_of_id_eq ha hb
    rw [← (Row.event_eq_ok hda).1, ← (Row.event_eq_ok heb).1, h]
  subst hab
  exact Except.ok.inj (hda.symm.trans heb)

/-- A relation between the rows in the order of their ids holds between their events. -/
theorem Holds.rel_of_pairwise {log : Log} {R : Int → Int → Prop}
    (h : log.rows.Pairwise fun a b => R a.createdAt b.createdAt) {d e : Event}
    (hd : log.Holds d) (he : log.Holds e) (hlt : d.id < e.id) :
    R d.createdAt.micros e.createdAt.micros := by
  obtain ⟨a, ha, hda⟩ := hd
  obtain ⟨b, hb, heb⟩ := he
  obtain ⟨hdid, -, hdt⟩ := Row.event_eq_ok hda
  obtain ⟨heid, -, het⟩ := Row.event_eq_ok heb
  rw [hdt, het]
  rcases rel_or_of_pairwise (log.ascending.and h) ha hb with hab | hab | hab
  · rw [hab] at hdid; omega
  · exact hab.2
  · omega

/-! ### Answers -/

theorem mem_of_events_eq_ok {rows : List Row} {es : List Event} (h : events rows = .ok es)
    {e : Event} : e ∈ es ↔ ∃ r ∈ rows, r.event = .ok e := by
  induction rows generalizing es with
  | nil => cases h; simp
  | cons x rows ih =>
      simp only [events, bind, Except.bind] at h
      split at h
      · cases h
      · rename_i d hd
        split at h
        · cases h
        · rename_i ds hds
          cases h
          have hmem := ih hds
          constructor
          · intro he
            rcases List.mem_cons.mp he with rfl | he
            · exact ⟨x, List.mem_cons_self, hd⟩
            · obtain ⟨r, hr, hre⟩ := hmem.mp he
              exact ⟨r, List.mem_cons_of_mem _ hr, hre⟩
          · rintro ⟨r, hr, hre⟩
            rcases List.mem_cons.mp hr with rfl | hr
            · rw [hd] at hre
              cases hre
              exact List.mem_cons_self
            · exact List.mem_cons_of_mem _ (hmem.mpr ⟨r, hr, hre⟩)

theorem ascending_of_events_eq_ok {rows : List Row} {es : List Event}
    (h : events rows = .ok es) (hp : rows.Pairwise (·.id < ·.id)) : es.Pairwise (·.id < ·.id) := by
  induction rows generalizing es with
  | nil => cases h; exact .nil
  | cons x rows ih =>
      obtain ⟨hx, hrows⟩ := List.pairwise_cons.mp hp
      simp only [events, bind, Except.bind] at h
      split at h
      · cases h
      · rename_i d hd
        split at h
        · cases h
        · rename_i ds hds
          cases h
          refine List.pairwise_cons.mpr ⟨fun e he => ?_, ih hds hrows⟩
          obtain ⟨r, hr, hre⟩ := (mem_of_events_eq_ok hds).mp he
          rw [(Row.event_eq_ok hd).1, (Row.event_eq_ok hre).1]
          exact hx r hr

theorem mem_of_eventsAfter_eq_ok {log : Log} {cursor : Instant} {es : List Event}
    (h : log.eventsAfter cursor = .ok es) {e : Event} :
    e ∈ es ↔ log.Holds e ∧ cursor.micros < e.createdAt.micros := by
  rw [mem_of_events_eq_ok h]
  constructor
  · rintro ⟨r, hr, he⟩
    obtain ⟨hr, hlt⟩ := List.mem_filter.mp hr
    refine ⟨⟨r, hr, he⟩, ?_⟩
    rw [(Row.event_eq_ok he).2.2]
    exact of_decide_eq_true hlt
  · rintro ⟨⟨r, hr, he⟩, hlt⟩
    rw [(Row.event_eq_ok he).2.2] at hlt
    exact ⟨r, List.mem_filter.mpr ⟨hr, decide_eq_true hlt⟩, he⟩

theorem eventsAfter_ascending {log : Log} {cursor : Instant} {es : List Event}
    (h : log.eventsAfter cursor = .ok es) : es.Pairwise (·.id < ·.id) :=
  ascending_of_events_eq_ok h (log.ascending.sublist List.filter_sublist)

/-- Of criteria that name a time only, rows are admitted as by the query after that time. -/
theorem Criteria.admits_since (t : Instant) (limit : Option Int) :
    Criteria.admits { since := some t, limit } =
      fun r : Row => decide (t.micros < r.createdAt) := by
  funext r
  simp [admits]

/-! ### Growth -/

/-- `b` is `a` with rows of new ids after those of `a`. -/
structure Grows (a b : Log) : Prop where
  rows_eq : ∃ new, b.rows = a.rows ++ new ∧ ∀ r ∈ new, a.lastId < r.id
  lastId_le : a.lastId ≤ b.lastId

theorem Grows.refl (a : Log) : a.Grows a :=
  ⟨⟨[], (List.append_nil _).symm, by simp⟩, Int.le_refl _⟩

theorem Grows.trans {a b c : Log} (h : a.Grows b) (h' : b.Grows c) : a.Grows c := by
  obtain ⟨new, heq, hnew⟩ := h.rows_eq
  obtain ⟨new', heq', hnew'⟩ := h'.rows_eq
  refine ⟨⟨new ++ new', by rw [heq', heq, List.append_assoc], fun r hr => ?_⟩,
    Int.le_trans h.lastId_le h'.lastId_le⟩
  rcases List.mem_append.mp hr with hr | hr
  · exact hnew r hr
  · exact Int.lt_of_le_of_lt h.lastId_le (hnew' r hr)

theorem Grows.holds {a b : Log} (h : a.Grows b) {e : Event} (he : a.Holds e) : b.Holds e := by
  obtain ⟨new, heq, -⟩ := h.rows_eq
  obtain ⟨r, hr, hre⟩ := he
  exact ⟨r, by rw [heq]; exact List.mem_append_left _ hr, hre⟩

/-- What was not in the log before has an id that the log had not reached. -/
theorem Grows.holds_or_lt {a b : Log} (h : a.Grows b) {e : Event} (he : b.Holds e) :
    a.Holds e ∨ a.lastId < e.id := by
  obtain ⟨new, heq, hnew⟩ := h.rows_eq
  obtain ⟨r, hr, hre⟩ := he
  rw [heq] at hr
  rcases List.mem_append.mp hr with hr | hr
  · exact .inl ⟨r, hr, hre⟩
  · right
    rw [(Row.event_eq_ok hre).1]
    exact hnew r hr

/-! ### Times that increase -/

/-- Each row is later than those before it by `gap` microseconds or more, and all are later than
the start. -/
structure Spaced (gap : Int) (start : Instant) (log : Log) : Prop where
  apart : log.rows.Pairwise (·.createdAt + gap ≤ ·.createdAt)
  after_start : ∀ r ∈ log.rows, start.micros < r.createdAt

instance (gap : Int) (start : Instant) (log : Log) : Decidable (log.Spaced gap start) :=
  decidable_of_iff (log.rows.Pairwise (·.createdAt + gap ≤ ·.createdAt) ∧
    ∀ r ∈ log.rows, start.micros < r.createdAt) ⟨fun h => ⟨h.1, h.2⟩, fun h => ⟨h.1, h.2⟩⟩

section Spaced

variable {gap : Int} {start : Instant} {log : Log} {d e : Event}

theorem Spaced.of_grows {a b : Log} (hb : b.Spaced gap start) (h : a.Grows b) :
    a.Spaced gap start := by
  obtain ⟨new, heq, -⟩ := h.rows_eq
  obtain ⟨hapart, hstart⟩ := hb
  rw [heq] at hapart hstart
  exact ⟨(List.pairwise_append.mp hapart).1, fun r hr => hstart r (List.mem_append_left _ hr)⟩

theorem Spaced.add_le (h : log.Spaced gap start) (hd : log.Holds d) (he : log.Holds e)
    (hlt : d.id < e.id) : d.createdAt.micros + gap ≤ e.createdAt.micros :=
  Log.Holds.rel_of_pairwise (R := fun a b => a + gap ≤ b) h.apart hd he hlt

/-- Less than the gap after an event there is no later one. -/
theorem Spaced.id_le (h : log.Spaced gap start) (hd : log.Holds d) (he : log.Holds e)
    (hlt : e.createdAt.micros < d.createdAt.micros + gap) : e.id ≤ d.id := by
  by_cases hid : d.id < e.id
  · have := h.add_le hd he hid
    omega
  · omega

theorem Spaced.increasing (h : log.Spaced gap start) (hgap : 0 < gap) :
    log.rows.Pairwise (·.createdAt < ·.createdAt) :=
  h.apart.imp fun hle => by omega

theorem Spaced.start_lt (h : log.Spaced gap start) (he : log.Holds e) :
    start.micros < e.createdAt.micros := by
  obtain ⟨r, hr, hre⟩ := he
  rw [(Row.event_eq_ok hre).2.2]
  exact h.after_start r hr

end Spaced

/-! ### Rows that are added -/

theorem place_eq_append {row : Row} {rows : List Row} (h : ∀ r ∈ rows, r.id < row.id) :
    place row rows = rows ++ [row] := by
  induction rows with
  | nil => rfl
  | cons x rows ih =>
      obtain ⟨hx, hrows⟩ := List.forall_mem_cons.mp h
      have hlt : ¬ row.id < x.id := by omega
      simp [place, hlt, ih hrows]

/-- What a row that is stored does to the log. -/
theorem insertRow_eq_ok {log log' : Log} {id : Option Int} {row : Row} {n : Int}
    (h : log.insertRow id row = .ok (n, log')) :
    n = id.getD (log.lastId + 1) ∧ log'.rows = place { row with id := n } log.rows ∧
      log'.lastId = max log.lastId n := by
  unfold insertRow at h
  dsimp only at h
  split at h
  · cases h
  · split at h
    · cases h
    · split at h
      · cases h
        exact ⟨rfl, rfl, rfl⟩
      · cases h

/-- A row stored under the next id, or under a later one, is one more. -/
theorem grows_of_insertRow {log log' : Log} {id : Option Int} {row : Row} {n : Int}
    (hid : ∀ i, id = some i → log.lastId < i) (h : log.insertRow id row = .ok (n, log')) :
    log.Grows log' := by
  obtain ⟨hn, hrows, hlast⟩ := insertRow_eq_ok h
  have hlt : log.lastId < n := by
    rw [hn]
    cases id with
    | none => exact Int.lt_succ _
    | some i => exact hid i rfl
  refine ⟨⟨[{ row with id := n }], ?_, fun r hr => ?_⟩, ?_⟩
  · rw [hrows]
    exact place_eq_append fun r hr => Int.lt_of_le_of_lt (log.id_le_lastId r hr) hlt
  · rw [List.mem_singleton.mp hr]
    exact hlt
  · rw [hlast]
    exact Int.le_max_left ..

theorem grows_of_append {log log' : Log} {d : Draft} {id : Int}
    (h : log.append d = .ok (id, log')) : log.Grows log' :=
  grows_of_insertRow (by simp) h

end Log

end EventStream
