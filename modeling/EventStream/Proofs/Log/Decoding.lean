import Mathlib.Data.List.Forall2
import EventStream.Proofs.Log.Stored

/-! Which rows can be read, and what a query after a cursor makes of a table of any rows: it brings
what every row after the cursor records, or the first defect of the first of them that has one. -/

namespace EventStream

namespace Instant

/-- Only these whole microseconds are those of an instant. -/
def InMicros (n : Int) : Prop := minSecond * 1000000 ≤ n ∧ n < (maxSecond + 1) * 1000000

instance (n : Int) : Decidable (InMicros n) := inferInstanceAs (Decidable (_ ∧ _))

theorem ofMicros?_eq_some_iff {n : Int} {t : Instant} :
    ofMicros? n = some t ↔ t.IsWhole ∧ t.micros = n := by
  refine ⟨ofMicros?_eq_some, ?_⟩
  rintro ⟨hwhole, rfl⟩
  exact (ofMicros?_micros_iff t).mpr hwhole

theorem ofMicros?_isSome_iff {n : Int} : (ofMicros? n).isSome = true ↔ InMicros n := by
  simp only [ofMicros?, ofUnix?_isSome_iff, InRange, InMicros, minSecond, maxSecond]
  omega

end Instant

/-- A label that is known as such is read back from its text. -/
theorem Label.ofText_text {l : Label} (h : ∀ k : Kind, l.text = k.label → l = .known k) :
    ofText l.text = l := by
  unfold ofText
  split
  · next k hk => exact (h k (Kind.label_of_ofLabel? hk).symm).symm
  · next hnone =>
    cases l with
    | known k => rw [text, Kind.ofLabel?_label] at hnone; cases hnone
    | unrecognized s => rfl

/-! ### Cells -/

namespace Cell

/-- What is wrong with the cell of a column of texts. -/
def textDefects (column : Nat) (required : Bool) : Cell → List LogError
  | null => if required then [.columnType column] else []
  | text _ => []
  | garbled => [.storage]
  | _ => [.columnType column]

/-- What is wrong with the cell of a column of bytes. -/
def bytesDefects (column : Nat) : Cell → List LogError
  | blob _ => []
  | _ => [.columnType column]

variable {c : Cell} {column : Nat}

theorem text?_eq_ok_iff {s : Option String} :
    c.text? column = .ok s ↔ c = s.elim .null .text := by
  cases s <;> cases c <;> simp [text?]

theorem label_eq_ok_iff {l : Label} :
    c.label column = .ok l ↔ ∃ s, c = .text s ∧ Label.ofText s = l := by
  cases c <;> simp [label]

theorem bytes_eq_ok_iff {b : ByteArray} : c.bytes column = .ok b ↔ c = .blob b := by
  cases c <;> simp [bytes]

end Cell

/-- A read with these defects, in the order in which it comes upon them: it succeeds if there are
none, and fails with the first. -/
def ReadsWith {α : Type} (read : Except LogError α) (defects : List LogError) : Prop :=
  (∃ a, read = .ok a ∧ defects = []) ∨ ∃ error, read = .error error ∧ defects.head? = some error

namespace ReadsWith

variable {α β : Type} {read : Except LogError α} {defects defects' : List LogError}

theorem pure (a : α) : ReadsWith (pure a) [] := .inl ⟨a, rfl, rfl⟩

theorem bind {next : α → Except LogError β} (h : ReadsWith read defects)
    (hnext : ∀ a, ReadsWith (next a) defects') :
    ReadsWith (read >>= next) (defects ++ defects') := by
  rcases h with ⟨a, rfl, rfl⟩ | ⟨error, rfl, hd⟩
  · exact hnext a
  · exact .inr ⟨error, rfl, by rw [List.head?_append, hd, Option.some_or]⟩

theorem bind_eq_ok_iff {next : α → Except LogError β} {b : β} :
    (read >>= next) = .ok b ↔ ∃ a, read = .ok a ∧ next a = .ok b := by
  cases read <;> simp [Bind.bind, Except.bind]

theorem exists_ok_iff (h : ReadsWith read defects) : (∃ a, read = .ok a) ↔ defects = [] := by
  rcases h with ⟨a, rfl, rfl⟩ | ⟨error, rfl, hd⟩
  · simp
  · simp only [reduceCtorEq, exists_false, false_iff]
    rintro rfl
    cases hd

theorem error_iff (h : ReadsWith read defects) {error : LogError} :
    read = .error error ↔ defects.head? = some error := by
  rcases h with ⟨a, rfl, rfl⟩ | ⟨first, rfl, hd⟩
  · simp
  · rw [hd]
    simp

end ReadsWith

namespace Cell

theorem readsWith_text? (c : Cell) (column : Nat) :
    ReadsWith (c.text? column) (c.textDefects column false) := by
  cases c <;> simp [ReadsWith, text?, textDefects]

theorem readsWith_label (c : Cell) (column : Nat) :
    ReadsWith (c.label column) (c.textDefects column true) := by
  cases c <;> simp [ReadsWith, label, textDefects]

theorem readsWith_bytes (c : Cell) (column : Nat) :
    ReadsWith (c.bytes column) (c.bytesDefects column) := by
  cases c <;> simp [ReadsWith, bytes, bytesDefects]

end Cell

/-! ### Rows -/

namespace Row

/-- What is wrong with the time of a row. -/
def timeDefects (r : Row) : List LogError :=
  if ¬ r.isTimed then [.columnType 5]
  else if Instant.InMicros r.createdAt then []
  else [.timeOutOfRange 5 r.createdAt]

/-- What is wrong with a row, column by column in the order in which they are read. -/
def defects (r : Row) : List LogError :=
  [r.policyId.textDefects 2 false, r.timeDefects, r.publicKey.textDefects 1 false,
    r.eventType.textDefects 3 true, r.eventData.bytesDefects 4].flatten

/-- The event that a row records. Its label has the row's text, known or not, and a policy whose
text is no UUID is left out. -/
structure Records (r : Row) (e : Event) : Prop where
  id : e.id = r.id
  publicKey : r.publicKey = e.publicKey.elim .null .text
  policyId : r.policyId = .null ∧ e.policyId = none ∨
    ∃ s, r.policyId = .text s ∧ e.policyId = Uuid.parse? s
  label : r.eventType = .text e.label.text
  known : ∀ k : Kind, e.label.text = k.label → e.label = .known k
  payload : r.eventData = .blob e.payload
  isTimed : r.isTimed = true
  isWhole : e.createdAt.IsWhole
  createdAt : e.createdAt.micros = r.createdAt

theorem stamp_eq_ok_iff {r : Row} {t : Instant} :
    r.stamp = .ok t ↔ r.isTimed = true ∧ t.IsWhole ∧ t.micros = r.createdAt := by
  rw [← Instant.ofMicros?_eq_some_iff, stamp, time]
  cases r.isTimed <;> cases Instant.ofMicros? r.createdAt <;> simp

theorem readsWith_stamp (r : Row) : ReadsWith r.stamp r.timeDefects := by
  have hin := Instant.ofMicros?_isSome_iff (n := r.createdAt)
  cases hr : r.isTimed <;> cases ht : Instant.ofMicros? r.createdAt <;>
    simp_all [ReadsWith, stamp, time, timeDefects]

theorem readsWith_event (r : Row) : ReadsWith r.event r.defects :=
  (r.policyId.readsWith_text? 2).bind fun _ => r.readsWith_stamp.bind fun _ =>
    (r.publicKey.readsWith_text? 1).bind fun _ => (r.eventType.readsWith_label 3).bind fun _ =>
      (r.eventData.readsWith_bytes 4).bind fun _ => .pure _

/-- A row without defects records one event, and that is read. -/
theorem event_eq_ok_iff {r : Row} {e : Event} : r.event = .ok e ↔ r.Records e := by
  simp only [event, ReadsWith.bind_eq_ok_iff, Cell.text?_eq_ok_iff, stamp_eq_ok_iff,
    Cell.label_eq_ok_iff, Cell.bytes_eq_ok_iff]
  constructor
  · rintro ⟨policy, hpolicy, t, ⟨htimed, hwhole, hmicros⟩, key, hkey, label, ⟨s, hlabel, rfl⟩,
      payload, hpayload, he⟩
    cases he
    refine ⟨rfl, hkey, ?_, ?_, ?_, hpayload, htimed, hwhole, hmicros⟩
    · cases policy with
      | none => exact .inl ⟨hpolicy, rfl⟩
      | some s => exact .inr ⟨s, hpolicy, rfl⟩
    · rw [hlabel, Label.text_ofText]
    · intro k hk
      rw [Label.text_ofText] at hk
      rw [hk, Label.ofText, Kind.ofLabel?_label]
  · intro h
    have hlabel : Label.ofText e.label.text = e.label := Label.ofText_text h.known
    have hpolicy : ∃ policy : Option String,
        r.policyId = policy.elim .null .text ∧ policy >>= Uuid.parse? = e.policyId := by
      rcases h.policyId with ⟨hnull, hnone⟩ | ⟨s, htext, hparse⟩
      · exact ⟨none, hnull, hnone.symm⟩
      · exact ⟨some s, htext, hparse.symm⟩
    obtain ⟨policy, hpolicy, hparse⟩ := hpolicy
    refine ⟨policy, hpolicy, e.createdAt, ⟨h.isTimed, h.isWhole, h.createdAt⟩, e.publicKey,
      h.publicKey, e.label, ⟨_, h.label, hlabel⟩, e.payload, h.payload, ?_⟩
    rw [hparse, ← h.id]
    rfl

namespace Records

variable {r : Row} {e : Event}

theorem text_label (h : r.Records e) {s : String} (hs : r.eventType = .text s) :
    e.label.text = s :=
  Cell.text.inj (h.label.symm.trans hs)

theorem label_eq_unrecognized (h : r.Records e) {s : String} (hs : r.eventType = .text s)
    (hnone : ∀ k : Kind, k.label ≠ s) : e.label = .unrecognized s := by
  have htext := h.text_label hs
  cases hl : e.label with
  | known k =>
      rw [hl] at htext
      exact absurd htext (hnone k)
  | unrecognized s' =>
      rw [hl] at htext
      exact congrArg Label.unrecognized htext

theorem policyId_eq_none (h : r.Records e) {s : String} (hs : r.policyId = .text s)
    (hparse : Uuid.parse? s = none) : e.policyId = none := by
  rcases h.policyId with ⟨-, hnone⟩ | ⟨s', htext, heq⟩
  · exact hnone
  · rw [heq, Cell.text.inj (htext.symm.trans hs), hparse]

end Records

end Row

/-! ### Tables -/

namespace Log

theorem events_eq_ok_iff {rows : List Row} {es : List Event} :
    events rows = .ok es ↔ List.Forall₂ Row.Records rows es := by
  induction rows generalizing es with
  | nil => simp [events, eq_comm]
  | cons r rows ih =>
      simp only [events, ReadsWith.bind_eq_ok_iff, Row.event_eq_ok_iff, List.forall₂_cons_left_iff]
      constructor
      · rintro ⟨e, he, rest, hrest, heq⟩
        cases heq
        exact ⟨e, rest, he, ih.mp hrest, rfl⟩
      · rintro ⟨e, rest, he, hrest, rfl⟩
        exact ⟨e, he, rest, ih.mpr hrest, rfl⟩

/-- Reading the rows comes upon their defects row by row. -/
theorem readsWith_events (rows : List Row) :
    ReadsWith (events rows) (rows.flatMap Row.defects) := by
  induction rows with
  | nil => exact .pure []
  | cons r rows ih =>
      rw [List.flatMap_cons, ← List.append_nil (rows.flatMap Row.defects)]
      exact r.readsWith_event.bind fun _ => ih.bind fun _ => .pure _

/-- The first defect of rows in the order of their ids is the first of the lowest that has one. -/
theorem head?_flatMap_defects {rows : List Row} (h : rows.Pairwise (·.id < ·.id))
    {error : LogError} :
    (rows.flatMap Row.defects).head? = some error ↔
      ∃ r ∈ rows, r.defects.head? = some error ∧ ∀ q ∈ rows, q.id < r.id → q.defects = [] := by
  induction rows with
  | nil => simp
  | cons x rows ih =>
      obtain ⟨hx, hrows⟩ := List.pairwise_cons.mp h
      rw [List.flatMap_cons, List.head?_append]
      cases hd : x.defects.head? with
      | none =>
          have hnil : x.defects = [] := List.head?_eq_none_iff.mp hd
          rw [Option.none_or, ih hrows]
          constructor
          · rintro ⟨r, hr, herror, hlower⟩
            exact ⟨r, List.mem_cons_of_mem _ hr, herror,
              List.forall_mem_cons.mpr ⟨fun _ => hnil, hlower⟩⟩
          · rintro ⟨r, hr, herror, hlower⟩
            rcases List.mem_cons.mp hr with rfl | hr
            · rw [hd] at herror; cases herror
            · exact ⟨r, hr, herror, (List.forall_mem_cons.mp hlower).2⟩
      | some first =>
          have hne : x.defects ≠ [] := by rintro hnil; rw [hnil] at hd; cases hd
          rw [Option.some_or]
          constructor
          · intro heq
            refine ⟨x, List.mem_cons_self, hd.trans heq, fun q hq hlt => ?_⟩
            rcases List.mem_cons.mp hq with rfl | hq
            · omega
            · have := hx q hq; omega
          · rintro ⟨r, hr, herror, hlower⟩
            rcases List.mem_cons.mp hr with rfl | hr
            · exact hd.symm.trans herror
            · exact absurd (hlower x List.mem_cons_self (hx r hr)) hne

/-- The rows that a query after the cursor reaches. -/
def rowsAfter (log : Log) (cursor : Instant) : List Row :=
  log.rows.filter (cursor.micros < ·.createdAt)

theorem rowsAfter_ascending (log : Log) (cursor : Instant) :
    (log.rowsAfter cursor).Pairwise (·.id < ·.id) :=
  log.ascending.sublist List.filter_sublist

theorem mem_rowsAfter_iff {log : Log} {cursor : Instant} (hc : ¬ cursor.IsLeap) {r : Row}
    (hr : r ∈ log.rows) {t : Instant} (ht : Instant.ofMicros? r.createdAt = some t) :
    r ∈ log.rowsAfter cursor ↔ cursor < t := by
  obtain ⟨hwhole, hmicros⟩ := Instant.ofMicros?_eq_some ht
  simp only [rowsAfter, List.mem_filter, hr, true_and, decide_eq_true_eq, ← hmicros]
  exact ⟨Instant.lt_of_micros_lt hwhole, Instant.micros_lt_of_lt (Nat.not_le.mp hc) hwhole⟩

/-- A query after a cursor brings what the rows after it record, in the order of their ids, unless
one of them has a defect; then it fails with the first defect of the lowest. The rows after the
cursor are those of a later time, and other rows have no part in it. No label and no policy is a
defect for what its text says. -/
theorem eventsAfter_exact {log : Log} {cursor : Instant} (hc : ¬ cursor.IsLeap) :
    ((∃ es, log.eventsAfter cursor = .ok es) ↔ ∀ r ∈ log.rowsAfter cursor, r.defects = []) ∧
    (∀ es, log.eventsAfter cursor = .ok es ↔ List.Forall₂ Row.Records (log.rowsAfter cursor) es) ∧
    (log.rowsAfter cursor).Pairwise (·.id < ·.id) ∧
    (∀ error, log.eventsAfter cursor = .error error ↔
      ∃ r ∈ log.rowsAfter cursor, r.defects.head? = some error ∧
        ∀ q ∈ log.rowsAfter cursor, q.id < r.id → q.defects = []) ∧
    (∀ r ∈ log.rows, ∀ t, Instant.ofMicros? r.createdAt = some t →
      (r ∈ log.rowsAfter cursor ↔ cursor < t)) ∧
    (∀ log' : Log, log'.rowsAfter cursor = log.rowsAfter cursor →
      log'.eventsAfter cursor = log.eventsAfter cursor) ∧
    ∀ (r : Row) (label policy : String),
      let r' : Row := { r with eventType := .text label, policyId := .text policy }
      r'.defects =
        { r with eventType := .text Kind.policyCreated.label, policyId := .null }.defects ∧
      ∀ e, r'.Records e → e.label.text = label ∧
        ((∀ k : Kind, k.label ≠ label) → e.label = .unrecognized label) ∧
        (Uuid.parse? policy = none → e.policyId = none) := by
  have hreads : ReadsWith (log.eventsAfter cursor) ((log.rowsAfter cursor).flatMap Row.defects) :=
    readsWith_events _
  refine ⟨?_, fun es => events_eq_ok_iff, log.rowsAfter_ascending cursor, fun error => ?_,
    fun r hr t ht => mem_rowsAfter_iff hc hr ht, fun log' hrows => congrArg events hrows,
    fun r label policy => ⟨rfl, fun e he => ?_⟩⟩
  · rw [hreads.exists_ok_iff, List.flatMap_eq_nil_iff]
  · rw [hreads.error_iff, head?_flatMap_defects (log.rowsAfter_ascending cursor)]
  · exact ⟨he.text_label rfl, he.label_eq_unrecognized rfl, he.policyId_eq_none rfl⟩

end Log

namespace World

/-- Before the cursor a row of which nothing can be read, and after it two with a label and a
policy that nobody knows. -/
def unfamiliar : List Move :=
  [.insertRow none ⟨0, .blob .empty, .garbled, .blob .empty, .null, 7, true⟩,
    .insertRow none ⟨0, .null, .text "everyone", .text "vault_created", .blob .empty, 8, true⟩,
    .append (policyAt 9)]

/-- Two damaged rows: of the lower one time and payload cannot be read, and the time of the other
is a text. -/
def damaged : List Move :=
  [.insertRow (some 9)
      ⟨0, .null, .garbled, .text "policy_created", .blob .empty, Int.pow 2 63, false⟩,
    .insertRow (some 8)
      ⟨0, .null, .null, .text "policy_created", .number, Int.pow 2 63 - 1, true⟩]

theorem eventsAfter_exact_of_damaged :
    let cursor : Instant := ⟨0, 7999, by decide⟩
    let log := ((new 1 1 .epoch).applyAll unfamiliar).log
    let log' := ((new 1 1 .epoch).applyAll (unfamiliar ++ damaged)).log
    ¬ cursor.IsLeap ∧ (∃ es, log.eventsAfter cursor = .ok es) ∧
      log'.eventsAfter cursor = .error (.timeOutOfRange 5 (Int.pow 2 63 - 1)) := by
  intro cursor log log'
  have hc : ¬ cursor.IsLeap := by decide
  have hexact := @Log.eventsAfter_exact log cursor hc
  have hexact' := @Log.eventsAfter_exact log' cursor hc
  exact ⟨hc, hexact.1.mpr (by decide +kernel), (hexact'.2.2.2.1 _).mpr (by decide +kernel)⟩

end World

end EventStream
