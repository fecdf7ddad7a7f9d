import EventStream.Proofs.Log.Decoding

/-! Reads with criteria, against the list of all that was appended. The stored forms that the
criteria are compared with tell events apart as the events' own fields do; a time in a leap second
is stored as another one, and then the list and the reads part. -/

namespace EventStream

namespace Log

namespace Criteria

/-- What the criteria say of an event. -/
def Wants (c : Criteria) (e : Event) : Prop :=
  (∀ t ∈ c.since, t < e.createdAt) ∧ (∀ k ∈ c.kind, e.label = .known k) ∧
    ∀ u ∈ c.policyId, e.policyId = some u

instance (c : Criteria) (e : Event) : Decidable (c.Wants e) :=
  inferInstanceAs (Decidable (_ ∧ _ ∧ _))

/-- The first events, as many as the limit says: a hundred without one, and all of them under a
negative one. -/
def bounded (c : Criteria) (es : List Event) : List Event :=
  match c.limit with
  | none => es.take 100
  | some (.ofNat n) => es.take n
  | some (.negSucc _) => es

end Criteria

/-- The log after appends to an empty one, with the records that the drafts became. -/
inductive Built : Log → List Event → Prop
  | empty : Built .empty []
  | append {log log' : Log} {es : List Event} {d : Draft} {id : Int} (built : Built log es)
      (h : log.append d = .ok (id, log')) : Built log' (es ++ [d.event id])

end Log

/-! ### Stored forms -/

namespace Row

/-- The row records the event, and its policy in the form in which policies are written. -/
structure Keeps (r : Row) (e : Event) : Prop extends r.Records e where
  hyphenated : r.policyId = e.policyId.elim .null (.text ·.hyphenated)

/-- What is read of a draft's row is kept there in written form, whatever became of the time. -/
theorem keeps_ofDraft {d : Draft} {n : Int} {e : Event} (h : (ofDraft d n).event = .ok e) :
    (ofDraft d n).Keeps e := by
  refine ⟨event_eq_ok_iff.mp h, ?_⟩
  rw [event_ofDraft] at h
  cases htime : time d.createdAt.micros with
  | error error => rw [htime] at h; cases h
  | ok t =>
      rw [htime] at h
      cases h
      rfl

variable {r : Row} {e : Event} {c : Log.Criteria}

theorem Records.createdAt_lt_iff (h : r.Records e) {t : Instant} (ht : ¬ t.IsLeap) :
    t.micros < r.createdAt ↔ t < e.createdAt := by
  rw [← h.createdAt]
  exact ⟨Instant.lt_of_micros_lt h.isWhole, Instant.micros_lt_of_lt (Nat.not_le.mp ht) h.isWhole⟩

theorem Records.eventType_eq_iff (h : r.Records e) (k : Kind) :
    r.eventType = .text k.label ↔ e.label = .known k := by
  rw [h.label, Cell.text.injEq]
  exact ⟨h.known k, fun hk => congrArg Label.text hk⟩

theorem Keeps.policyId_eq_iff (h : r.Keeps e) (u : Uuid) :
    r.policyId = .text u.hyphenated ↔ e.policyId = some u := by
  rw [h.hyphenated]
  cases e.policyId with
  | none => simp
  | some v =>
      rw [Option.elim_some, Cell.text.injEq, Option.some_inj]
      refine ⟨fun heq => ?_, congrArg Uuid.hyphenated⟩
      have hparse := Uuid.parse?_hyphenated v
      rw [heq, Uuid.parse?_hyphenated] at hparse
      exact (Option.some.inj hparse).symm

/-- Each condition on the row is that on its event. Policies may be stored in forms that no
condition names. -/
theorem Records.admits_iff (h : r.Records e) (hc : ∀ t ∈ c.since, ¬ t.IsLeap)
    (hpolicy : ∀ u ∈ c.policyId, r.policyId = .text u.hyphenated ↔ e.policyId = some u) :
    c.admits r = true ↔ c.Wants e := by
  simp only [Log.Criteria.admits, Log.Criteria.Wants, Bool.and_eq_true, Option.all_eq_true,
    decide_eq_true_eq, and_assoc]
  refine and_congr ?_ (and_congr ?_ ?_)
  · exact forall₂_congr fun t ht => h.createdAt_lt_iff (hc t ht)
  · exact forall₂_congr fun k _ => h.eventType_eq_iff k
  · exact forall₂_congr hpolicy

end Row

/-! ### Selected events -/

namespace Log

variable {log : Log} {es : List Event} {c : Criteria}

theorem Criteria.forall₂_take {R : Row → Event → Prop} {rows : List Row}
    (h : List.Forall₂ R rows es) (c : Criteria) :
    List.Forall₂ R (c.take rows) (c.bounded es) := by
  unfold take bounded
  cases c.limit with
  | none => exact List.forall₂_take 100 h
  | some n =>
      cases n with
      | ofNat n => exact List.forall₂_take n h
      | negSucc n =>
          have hneg : (some (Int.negSucc n)).getD 100 < 0 := Int.negSucc_lt_zero n
          rw [if_pos hneg]
          exact h

/-- If the rows keep these events, a read finds those of them that the criteria want. -/
theorem select_eq_ok (h : List.Forall₂ Row.Keeps log.rows es)
    (hc : ∀ t ∈ c.since, ¬ t.IsLeap) :
    log.select c = .ok (c.bounded (es.filter (c.Wants ·))) := by
  have hfilter : List.Forall₂ Row.Keeps (log.rows.filter c.admits) (es.filter (c.Wants ·)) := by
    refine List.rel_filter (fun r e hre => ?_) h
    exact (hre.admits_iff hc fun u _ => hre.policyId_eq_iff u).trans decide_eq_true_iff.symm
  exact events_eq_ok_iff.mpr ((c.forall₂_take hfilter).imp fun _ _ hre => hre.toRecords)

/-- Without conditions and with no bound, all rows are read. -/
theorem select_all : log.select { limit := some (-1) } = events log.rows := by
  have hall : log.rows.filter (Criteria.admits { limit := some (-1) }) = log.rows :=
    List.filter_eq_self.mpr fun _ _ => rfl
  rw [select, hall]
  rfl

/-- With no condition but the time and no bound, a read is the query after that time. -/
theorem select_unbounded {t : Instant} {limit : Int} (h : limit < 0) :
    log.select { since := some t, limit := some limit } = log.eventsAfter t := by
  rw [select, eventsAfter, Criteria.admits_since, Criteria.take, Option.getD_some, if_pos h]

/-! ### The appended list -/

/-- The rows are those of the drafts, in the order in which they were appended. -/
theorem Built.exists_drafts (h : log.Built es) : ∃ drafts : List (Draft × Int),
    log.rows = drafts.map (fun p => Row.ofDraft p.1 p.2) ∧
      es = drafts.map fun p => p.1.event p.2 := by
  induction h with
  | empty => exact ⟨[], rfl, rfl⟩
  | @append log log' es d id _ happend ih =>
      obtain ⟨drafts, hrows, rfl⟩ := ih
      obtain ⟨hid, hrows', -⟩ := insertRow_eq_ok happend
      have hlt : ∀ r ∈ log.rows, r.id < id := fun r hr =>
        hid ▸ Int.lt_add_one_of_le (log.id_le_lastId r hr)
      refine ⟨drafts ++ [(d, id)], ?_, by rw [List.map_append]; rfl⟩
      rw [hrows', place_eq_append hlt, hrows, List.map_append]
      rfl

theorem Built.ascending (h : log.Built es) : es.Pairwise (·.id < ·.id) := by
  obtain ⟨drafts, hrows, rfl⟩ := h.exists_drafts
  have hascending := log.ascending
  rw [hrows, List.pairwise_map] at hascending
  exact List.pairwise_map.mpr hascending

/-- The rows keep what is read of them. -/
theorem Built.forall₂_keeps_of_events {read : List Event} (h : log.Built es)
    (hread : events log.rows = .ok read) : List.Forall₂ Row.Keeps log.rows read := by
  obtain ⟨drafts, hrows, -⟩ := h.exists_drafts
  rw [hrows] at hread ⊢
  have hrecords := List.forall₂_map_left_iff.mp (events_eq_ok_iff.mp hread)
  exact List.forall₂_map_left_iff.mpr
    (hrecords.imp fun _ _ hre => Row.keeps_ofDraft (Row.event_eq_ok_iff.mpr hre))

/-- The rows keep what was appended if its times can be stored. -/
theorem Built.forall₂_keeps (h : log.Built es) (hwhole : ∀ e ∈ es, e.createdAt.IsWhole) :
    List.Forall₂ Row.Keeps log.rows es := by
  obtain ⟨drafts, hrows, rfl⟩ := h.exists_drafts
  rw [hrows, List.forall₂_map_left_iff, List.forall₂_map_right_iff, List.forall₂_same]
  intro p hp
  exact Row.keeps_ofDraft ((Row.event_ofDraft_eq_ok_iff p.1 p.2).mpr
    (hwhole _ (List.mem_map_of_mem hp)))

/-- A read with criteria finds the first events that they want, of those that a read of all the
rows finds; and these are the events that were appended if and only if the times of all of these
are whole microseconds outside leap seconds. With no condition but the time and no bound it is the
query after that time. -/
theorem Built.select_iff (h : log.Built es) :
    es.Pairwise (·.id < ·.id) ∧
    (∀ read, events log.rows = .ok read → ∀ c : Criteria, (∀ t ∈ c.since, ¬ t.IsLeap) →
      log.select c = .ok (c.bounded (read.filter (c.Wants ·)))) ∧
    ((∀ c : Criteria, (∀ t ∈ c.since, ¬ t.IsLeap) →
        log.select c = .ok (c.bounded (es.filter (c.Wants ·)))) ↔
      ∀ e ∈ es, e.createdAt.IsWhole) ∧
    ∀ (t : Instant) (limit : Int), limit < 0 →
      log.select { since := some t, limit := some limit } = log.eventsAfter t := by
  refine ⟨h.ascending, fun read hread c hc => select_eq_ok (h.forall₂_keeps_of_events hread) hc,
    ⟨fun hselect e he => ?_, fun hwhole c hc => select_eq_ok (h.forall₂_keeps hwhole) hc⟩,
    fun t limit hlimit => select_unbounded hlimit⟩
  have hread := hselect { limit := some (-1) } (by simp)
  have hall : es.filter (Criteria.Wants { limit := some (-1) } ·) = es :=
    List.filter_eq_self.mpr fun _ _ => by simp [Criteria.Wants]
  rw [select_all, hall] at hread
  obtain ⟨r, -, hre⟩ := (mem_of_events_eq_ok hread).mp he
  exact (Row.event_eq_ok hre).2.1

end Log

namespace World

def entryPolicy : Option Uuid := Uuid.ofHex? (List.replicate 32 'b')

/-- Those of the policy and of the kind that creates one are the second, the third, which is the
earliest of all, and the fifth. -/
def entries : List Draft :=
  [{ policyAt 300 with kind := .vaultDeleted, policyId := entryPolicy },
    { policyAt 200 with policyId := entryPolicy }, { policyAt 100 with policyId := entryPolicy },
    policyAt 400, { policyAt 200 with policyId := entryPolicy, payload := "1".toUTF8 }]

theorem select_of_entries :
    let log := ((new 1 1 .epoch).applyAll (entries.map .append)).log
    let es := [entries[0].event 1, entries[1].event 2, entries[2].event 3, entries[3].event 4,
      entries[4].event 5]
    let criteria : Log.Criteria :=
      { since := some ⟨0, 100999, by decide⟩, kind := some .policyCreated, policyId := entryPolicy }
    log.Built es ∧ (∀ e ∈ es, e.createdAt.IsWhole) ∧
      log.select criteria = .ok [entries[1].event 2, entries[4].event 5] ∧
      log.select { criteria with limit := some 1 } = .ok [entries[1].event 2] := by
  intro log es criteria
  have hbuilt : log.Built es :=
    .append (.append (.append (.append (.append .empty rfl) rfl) rfl) rfl) rfl
  have hwhole : ∀ e ∈ es, e.createdAt.IsWhole := by decide +kernel
  have hselect := hbuilt.select_iff.2.2.1.mpr hwhole
  refine ⟨hbuilt, hwhole, (hselect criteria (by decide)).trans ?_, ?_⟩
  · decide +kernel
  · exact (hselect { criteria with limit := some 1 } (by decide)).trans (by decide +kernel)

/-- What was created in a leap second is found among the events after a later time, and where it is
the leap second after the last second, reads fail. -/
theorem select_of_leapSecond :
    let log := ((new 1 1 .epoch).apply (.append inLeapSecond)).log
    let log' := ((new 1 1 .epoch).apply (.append afterLastSecond)).log
    let since : Instant := ⟨60, 200000000, by decide⟩
    log.Built [inLeapSecond.event 1] ∧ inLeapSecond.createdAt < since ∧
      log.select { since := some since } =
        .ok [{ inLeapSecond.event 1 with createdAt := ⟨60, 500000000, by decide⟩ }] ∧
      log'.Built [afterLastSecond.event 1] ∧
      log'.select {} = .error (.timeOutOfRange 5 8210266876800000000) :=
  ⟨.append .empty rfl, by decide, rfl, .append .empty rfl, rfl⟩

end World

end EventStream
