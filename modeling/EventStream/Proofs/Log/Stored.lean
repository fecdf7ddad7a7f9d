import EventStream.Proofs.Instant.Rfc3339
import EventStream.Proofs.Log
import EventStream.Proofs.Uuid
import EventStream.Proofs.World

/-! What the log gives back of a draft. Reading the row of a draft makes the draft's record again,
unless the draft's time lies in a leap second: the row's microseconds are then those of an
instant in the second after it. -/

namespace EventStream

namespace Instant

def IsLeap (t : Instant) : Prop := 1000000000 ≤ t.nano

instance (t : Instant) : Decidable t.IsLeap := inferInstanceAs (Decidable (_ ≤ _))

theorem micros_truncate (t : Instant) : t.truncate.micros = t.micros := by
  simp only [micros, truncate]
  omega

theorem isWhole_truncate_iff (t : Instant) : t.truncate.IsWhole ↔ ¬ t.IsLeap := by
  simp only [IsWhole, IsLeap, truncate]
  omega

/-- Of the instants that have these microseconds, the whole one is read. -/
theorem ofMicros?_micros_iff (t : Instant) : ofMicros? t.micros = some t ↔ t.IsWhole := by
  refine ⟨fun h => (ofMicros?_eq_some h).1, fun h => ?_⟩
  simp only [IsWhole] at h
  have hsecond : t.micros / 1000000 = t.second := by
    simp only [micros]
    omega
  have hnano : (t.micros % 1000000).toNat * 1000 = t.nano := by
    simp only [micros]
    omega
  rw [ofMicros?, hsecond, hnano, ofUnix?_self]

end Instant

/-! ### The row of a draft -/

namespace Row

/-- Every column is read back as it was but the time, which is read from its microseconds. -/
theorem event_ofDraft (d : Draft) (n : Int) :
    (ofDraft d n).event =
      (time d.createdAt.micros).map fun t => { d.event n with createdAt := t } := by
  have hpolicy : (ofDraft d n).policyId.text? 2 = .ok (d.policyId.map Uuid.hyphenated) := by
    simp only [ofDraft]
    cases d.policyId <;> rfl
  have hparse : d.policyId.map Uuid.hyphenated >>= Uuid.parse? = d.policyId := by
    cases d.policyId with
    | none => rfl
    | some u => exact Uuid.parse?_hyphenated u
  have hkey : (ofDraft d n).publicKey.text? 1 = .ok d.publicKey := by
    simp only [ofDraft]
    cases d.publicKey <;> rfl
  have hlabel : (ofDraft d n).eventType.label 3 = .ok (.known d.kind) := by
    simp only [ofDraft, Cell.label, Label.ofText, Kind.ofLabel?_label]
  have hdata : (ofDraft d n).eventData.bytes 4 = .ok d.payload := rfl
  have htime : (ofDraft d n).stamp = time d.createdAt.micros := rfl
  rw [event, hpolicy, hkey, hlabel, hdata, htime]
  cases time d.createdAt.micros with
  | error e => rfl
  | ok t =>
      simp only [bind, pure, Except.bind, Except.pure, Except.map] at hparse ⊢
      rw [hparse]
      rfl

theorem event_ofDraft_eq_ok_iff (d : Draft) (n : Int) :
    (ofDraft d n).event = .ok (d.event n) ↔ d.createdAt.IsWhole := by
  rw [event_ofDraft, ← Instant.ofMicros?_micros_iff, time]
  cases Instant.ofMicros? d.createdAt.micros with
  | none => simp [Except.map]
  | some t => simp [Except.map, Draft.event]

end Row

namespace Log

/-- A query after `cursor` finds the event's row and has this event for it, and nothing else. A
query that fails does so for another row. -/
structure Reads (log : Log) (cursor : Instant) (e : Event) : Prop where
  row : ∃ r ∈ log.rows, r.id = e.id ∧ cursor.micros < r.createdAt ∧ r.event = .ok e
  found : ∀ es, log.eventsAfter cursor = .ok es → es.filter (·.id = e.id) = [e]
  failed : ∀ error, log.eventsAfter cursor = .error error →
    ∃ r ∈ log.rows, r.id ≠ e.id ∧ r.event = .error error

theorem exists_of_events_eq_error {rows : List Row} {error : LogError}
    (h : events rows = .error error) : ∃ r ∈ rows, r.event = .error error := by
  induction rows with
  | nil => cases h
  | cons x rows ih =>
      simp only [events, bind, Except.bind] at h
      split at h
      · rename_i hx
        cases h
        exact ⟨x, List.mem_cons_self, hx⟩
      · split at h
        · rename_i hrows
          cases h
          obtain ⟨r, hr, he⟩ := ih hrows
          exact ⟨r, List.mem_cons_of_mem _ hr, he⟩
        · cases h

theorem filter_id_eq {es : List Event} (h : es.Pairwise (·.id < ·.id)) {e : Event} (he : e ∈ es) :
    es.filter (·.id = e.id) = [e] := by
  induction es with
  | nil => cases he
  | cons x es ih =>
      obtain ⟨hx, hes⟩ := List.pairwise_cons.mp h
      rcases List.mem_cons.mp he with rfl | he
      · have hnone : es.filter (·.id = e.id) = [] := by
          refine List.filter_eq_nil_iff.mpr fun d hd => ?_
          have := hx d hd
          simp only [decide_eq_true_eq]
          omega
        simp [hnone]
      · have hne : x.id ≠ e.id := Int.ne_of_lt (hx e he)
        rw [List.filter_cons_of_neg (by simpa using hne)]
        exact ih hes he

theorem reads_of_mem {log : Log} {cursor : Instant} {e : Event} {r : Row} (hr : r ∈ log.rows)
    (he : r.event = .ok e) (hlt : cursor.micros < r.createdAt) : log.Reads cursor e where
  row := ⟨r, hr, (Row.event_eq_ok he).1.symm, hlt, he⟩
  found := by
    intro es hes
    refine filter_id_eq (eventsAfter_ascending hes) ?_
    refine (mem_of_eventsAfter_eq_ok hes).mpr ⟨⟨r, hr, he⟩, ?_⟩
    rw [(Row.event_eq_ok he).2.2]
    exact hlt
  failed := by
    intro error herror
    obtain ⟨q, hq, hqe⟩ := exists_of_events_eq_error herror
    refine ⟨q, (List.mem_filter.mp hq).1, fun hid => ?_, hqe⟩
    rw [eq_of_id_eq (List.mem_filter.mp hq).1 hr (hid.trans (Row.event_eq_ok he).1), he] at hqe
    cases hqe

/-- What is stored is stored as it is, beside the rows that were there. -/
theorem mem_rows_of_insertRow {log log' : Log} {id : Option Int} {row r : Row} {n : Int}
    (h : log.insertRow id row = .ok (n, log')) (hr : r = { row with id := n } ∨ r ∈ log.rows) :
    r ∈ log'.rows := by
  rw [(insertRow_eq_ok h).2.1]
  exact mem_place.mpr hr

end Log

namespace World

/-! ### The row in later logs -/

theorem mem_rows_withLog {α : Type} {w : World} {r : Row} {found : Except LogError (α × Log)}
    (hr : r ∈ w.log.rows) (h : ∀ a log, found = .ok (a, log) → r ∈ log.rows) :
    r ∈ (w.withLog found).log.rows := by
  cases found with
  | error e => exact hr
  | ok found => exact h found.1 found.2 rfl

theorem mem_rows_apply {w : World} {m : Move} {r : Row} (hr : r ∈ w.log.rows)
    (hm : m ≠ .deleteRow r.id) : r ∈ (w.apply m).log.rows := by
  cases m with
  | append draft =>
      exact mem_rows_withLog hr fun _ _ h => Log.mem_rows_of_insertRow h (.inr hr)
  | insertRow id row =>
      exact mem_rows_withLog hr fun _ _ h => Log.mem_rows_of_insertRow h (.inr hr)
  | deleteRow id =>
      refine List.mem_filter.mpr ⟨hr, ?_⟩
      simpa using fun h : r.id = id => hm (by rw [h])
  | _ => exact hr

theorem mem_rows_of_run {v w : World} {past : List (World × Move)} {r : Row}
    (run : Run (fun _ m => m ≠ .deleteRow r.id) v past w) (hr : r ∈ v.log.rows) :
    r ∈ w.log.rows := by
  induction run with
  | nil => exact hr
  | cons _ hm ih => exact mem_rows_apply ih hm

/-- What is read of a draft under the id that it was given. As long as its row is there, a query
after any earlier instant finds the draft's record, unless the draft's time lies in a leap
second, or the query's does and so reaches into the second after it. -/
theorem reads_appended_iff {v w : World} {past : List (World × Move)} {log : Log} {n : Int}
    {kind : Kind} {time cursor : Instant} {publicKey : Option String} {policyId : Option Uuid}
    {payload : ByteArray} {d : Draft}
    (hd : d = { Draft.stamped kind time with publicKey, policyId, payload })
    (happend : v.log.append d = .ok (n, log))
    (run : Run (fun _ m => m ≠ .deleteRow n) (v.apply (.append d)) past w)
    (hcursor : cursor < d.createdAt) :
    w.log.Reads cursor (d.event n) ↔
      ¬ time.IsLeap ∧ (cursor.IsLeap → cursor.micros < time.micros) := by
  have htime : d.createdAt = time.truncate := by rw [hd]; rfl
  have hrow : Row.ofDraft d n ∈ w.log.rows := by
    refine mem_rows_of_run run ?_
    simp only [apply, withLog, happend]
    exact Log.mem_rows_of_insertRow happend (.inl rfl)
  have hmicros : (Row.ofDraft d n).createdAt = time.micros :=
    (congrArg Instant.micros htime).trans time.micros_truncate
  have hread := Row.event_ofDraft_eq_ok_iff d n
  rw [htime, Instant.isWhole_truncate_iff] at hread
  constructor
  · intro h
    obtain ⟨r, hr, hid, hlt, he⟩ := h.row
    obtain rfl : r = Row.ofDraft d n := Log.eq_of_id_eq hr hrow hid
    exact ⟨hread.mp he, fun _ => hmicros ▸ hlt⟩
  · rintro ⟨hleap, hoverlap⟩
    refine Log.reads_of_mem hrow (hread.mpr hleap) ?_
    rw [hmicros]
    by_cases hc : cursor.IsLeap
    · exact hoverlap hc
    · rw [htime] at hcursor
      rw [← time.micros_truncate]
      exact Instant.micros_lt_of_lt (Nat.not_le.mp hc) (time.isWhole_truncate_iff.mpr hleap) hcursor

/-- A moment before 1970 that is no whole microsecond. -/
def beforeEpoch : Draft :=
  { Draft.stamped .vaultDeleted ⟨-1, 123456789, by decide⟩ with
    publicKey := some "k"
    policyId := Uuid.ofHex? (List.replicate 32 'a')
    payload := "7".toUTF8 }

/-- After it a row comes into the log that cannot be read, so that queries fail. -/
def unreadable : List Move :=
  [.append (policyAt 5), .insertRow none ⟨0, .null, .null, .blob .empty, .blob .empty, 9, true⟩,
    .deleteRow 2]

theorem reads_of_beforeEpoch :
    let w := ((new 1 1 .epoch).apply (.append beforeEpoch)).applyAll unreadable
    let cursor : Instant := ⟨-1, 123455999, by decide⟩
    (w.log.eventsAfter cursor).isOk = false ∧
      w.log.Reads cursor (beforeEpoch.event 1) := by
  intro w cursor
  refine ⟨by decide +kernel, ?_⟩
  have run : Run (fun _ m => m ≠ .deleteRow 1) ((new 1 1 .epoch).apply (.append beforeEpoch)) _ w :=
    Follows.run (by simp [unreadable, Follows]) .nil
  exact (reads_appended_iff rfl rfl run (by decide)).mpr ⟨by decide, by decide⟩

/-- Half a second into a leap second. -/
def inLeapSecond : Draft :=
  .stamped .policyCreated ((Instant.ofUnix? 59 1500000000).getD .epoch)

/-- In the leap second after the last second that there is. -/
def afterLastSecond : Draft := .stamped .policyCreated ⟨Instant.maxSecond, 1000000000, by decide⟩

/-- What was created in a leap second is read back half a second after it, and after the last
second not at all: the query fails. -/
theorem leapSecond_not_read :
    let log := ((new 1 1 .epoch).apply (.append inLeapSecond)).log
    let log' := ((new 1 1 .epoch).apply (.append afterLastSecond)).log
    log.eventsAfter .epoch =
        .ok [{ inLeapSecond.event 1 with createdAt := ⟨60, 500000000, by decide⟩ }] ∧
      ¬ log.Reads .epoch (inLeapSecond.event 1) ∧
      log'.eventsAfter .epoch = .error (.timeOutOfRange 5 8210266876800000000) := by
  intro log log'
  refine ⟨rfl, fun h => ?_, rfl⟩
  have hfound := h.found _ rfl
  revert hfound
  decide

end World

end EventStream
