import EventStream.Proofs.Batch
import EventStream.Proofs.Http.History
import EventStream.Proofs.Log.Selection

/-! Pages of the history that have fewer messages than were asked for. The limit counts rows, and
of these only the events that make a message are on the page: a short page ends the history if
it is short of rows, and otherwise just if no message is left behind it. -/

namespace EventStream

namespace Log

/-- The events that the log holds, in the order of their ids. -/
def held (log : Log) : List Event := log.rows.filterMap fun r => r.event.toOption

theorem mem_held_iff {log : Log} {e : Event} : e ∈ log.held ↔ log.Holds e := by
  rw [held, List.mem_filterMap]
  refine exists_congr fun r => and_congr_right fun _ => ?_
  cases r.event <;> simp [Except.toOption]

variable {log : Log} {c : Criteria} {es : List Event} {e : Event} {limit : Int}

theorem Criteria.take_of_nonneg (hlimit : c.limit = some limit) (hnonneg : 0 ≤ limit)
    (rows : List Row) : c.take rows = rows.take limit.toNat := by
  rw [take, hlimit, Option.getD_some, if_neg (Int.not_lt.mpr hnonneg)]

theorem length_le_of_select (hselect : log.select c = .ok es) (hlimit : c.limit = some limit)
    (hnonneg : 0 ≤ limit) : es.length ≤ limit := by
  rw [← (events_eq_ok_iff.mp hselect).length_eq, Criteria.take_of_nonneg hlimit hnonneg,
    List.length_take]
  omega

/-- A wanted event is found, or the limit has been reached before it. -/
theorem mem_or_lt_of_select (hselect : log.select c = .ok es) (hlimit : c.limit = some limit)
    (hnonneg : 0 ≤ limit) (hadmits : ∀ r e, r.Records e → (c.admits r = true ↔ c.Wants e))
    (he : log.Holds e) (hwants : c.Wants e) :
    e ∈ es ∨ es.length = limit ∧ ∀ d ∈ es, d.id < e.id := by
  rw [select, Criteria.take_of_nonneg hlimit hnonneg] at hselect
  obtain ⟨r, hr, hre⟩ := he
  have hmem : r ∈ log.rows.filter c.admits :=
    List.mem_filter.mpr ⟨hr, (hadmits r e (Row.event_eq_ok_iff.mp hre)).mpr hwants⟩
  have hascending : (log.rows.filter c.admits).Pairwise (·.id < ·.id) :=
    log.ascending.sublist List.filter_sublist
  generalize log.rows.filter c.admits = rows at hselect hmem hascending
  rw [← List.take_append_drop limit.toNat rows] at hmem hascending
  rcases List.mem_append.mp hmem with hfound | hbehind
  · exact .inl ((mem_of_events_eq_ok hselect).mpr ⟨r, hfound, hre⟩)
  · have hdrop := List.length_pos_of_mem hbehind
    rw [List.length_drop] at hdrop
    refine .inr ⟨?_, fun d hd => ?_⟩
    · rw [← (events_eq_ok_iff.mp hselect).length_eq, List.length_take]
      omega
    · obtain ⟨q, hq, hqd⟩ := (mem_of_events_eq_ok hselect).mp hd
      rw [(Row.event_eq_ok hqd).1, (Row.event_eq_ok hre).1]
      exact (List.pairwise_append.mp hascending).2.2 q hq r hbehind

end Log

namespace Http

/-- Each event of the log that is wanted and makes a message has it among these. -/
def Complete (log : Log) (c : Log.Criteria) (messages : List Message) : Prop :=
  ∀ e m, log.Holds e → c.Wants e → Message.ofEvent? e = some m → m ∈ messages

/-- No wanted event behind those found makes a message. -/
def Exhausted (log : Log) (c : Log.Criteria) (es : List Event) : Prop :=
  ∀ e, log.Holds e → c.Wants e → (∀ d ∈ es, d.id < e.id) → Message.ofEvent? e = none

instance (log : Log) (c : Log.Criteria) (es : List Event) : Decidable (Exhausted log c es) :=
  decidable_of_iff (∀ e ∈ log.held,
      c.Wants e → (∀ d ∈ es, d.id < e.id) → Message.ofEvent? e = none)
    (forall_congr' fun _ => imp_congr_left Log.mem_held_iff)

/-! ### Criteria of a page -/

theorem pageLimit_bounds (asked : Option Int) : 1 ≤ pageLimit asked ∧ pageLimit asked ≤ 1000 := by
  unfold pageLimit
  omega

theorem pageLimit_nonneg (asked : Option Int) : 0 ≤ pageLimit asked :=
  Int.le_trans (by decide) (pageLimit_bounds asked).1

/-- The criteria of a page with what was asked for: a millisecond, or none, and a limit. -/
def asked (ms limit : Option Int) : Log.Criteria where
  since := ms.bind Instant.ofMillis?
  limit := some (pageLimit limit)

theorem criteria?_eq_some {query : List Char} {c : Log.Criteria} (h : criteria? query = some c) :
    ∃ ms limit, Form.integer? "since" (Form.pairs query) = some ms ∧
      (∀ n ∈ ms, (Instant.ofMillis? n).isSome) ∧
      Form.integer? "limit" (Form.pairs query) = some limit ∧ c = asked ms limit := by
  simp only [criteria?, Option.bind_eq_bind, Option.bind_eq_some_iff] at h
  obtain ⟨ms, hms, limit, hlimit, h⟩ := h
  cases ms with
  | none =>
      cases h
      exact ⟨none, limit, hms, nofun, hlimit, rfl⟩
  | some n =>
      cases ht : Instant.ofMillis? n with
      | none =>
          simp only [ht] at h
          cases h
      | some t =>
          simp only [ht] at h
          cases h
          refine ⟨some n, limit, hms, ?_, hlimit, ?_⟩
          · rintro _ ⟨⟩
            rw [ht, Option.isSome_some]
          · rw [asked, Option.bind_some, ht]

theorem not_isLeap_of_asked {ms limit : Option Int} : ∀ t ∈ (asked ms limit).since, ¬ t.IsLeap := by
  intro t ht
  obtain ⟨n, -, hn⟩ := Option.bind_eq_some_iff.mp ht
  exact Nat.not_le.mpr (Instant.isWhole_of_ofMillis? hn).1

theorem asked_admits_iff (ms limit : Option Int) (r : Row) (e : Event) (h : r.Records e) :
    (asked ms limit).admits r = true ↔ (asked ms limit).Wants e :=
  h.admits_iff not_isLeap_of_asked nofun

theorem history_eq_ok {log : Log} {query : List Char} (h : (history log query).status = 200) :
    ∃ c es, criteria? query = some c ∧ log.select c = .ok es ∧
      history log query = { status := 200, body := page es } := by
  unfold history at h ⊢
  cases hc : criteria? query with
  | none => rw [hc] at h; cases h
  | some c =>
      rw [hc] at h
      cases hes : log.select c with
      | error error => simp only [hes] at h; cases h
      | ok es => exact ⟨c, es, rfl, hes, by simp only [hes]⟩

/-! ### What a page leaves behind -/

section Page

variable {log : Log} {ms limit : Option Int} {es : List Event}

theorem mem_or_lt_of_asked (hselect : log.select (asked ms limit) = .ok es) {e : Event}
    (he : log.Holds e) (hwants : (asked ms limit).Wants e) :
    e ∈ es ∨ es.length = pageLimit limit ∧ ∀ d ∈ es, d.id < e.id :=
  Log.mem_or_lt_of_select hselect rfl (pageLimit_nonneg limit) (asked_admits_iff ms limit) he hwants

theorem complete_of_length_lt (hselect : log.select (asked ms limit) = .ok es)
    (hlt : es.length < pageLimit limit) :
    Complete log (asked ms limit) (es.filterMap Message.ofEvent?) := by
  intro e m he hwants hm
  rcases mem_or_lt_of_asked hselect he hwants with hfound | ⟨hlength, -⟩
  · exact List.mem_filterMap.mpr ⟨e, hfound, hm⟩
  · omega

theorem complete_iff_exhausted (hselect : log.select (asked ms limit) = .ok es) :
    Complete log (asked ms limit) (es.filterMap Message.ofEvent?) ↔
      Exhausted log (asked ms limit) es := by
  constructor
  · intro hcomplete e he hwants hbehind
    refine Option.eq_none_iff_forall_ne_some.mpr fun m hm => ?_
    obtain ⟨d, hd, hdm⟩ := List.mem_filterMap.mp (hcomplete e m he hwants hm)
    have hid := (Message.id_eq_of_ofEvent? hdm).symm.trans (Message.id_eq_of_ofEvent? hm)
    exact absurd hid (Int.ne_of_lt (hbehind d hd))
  · intro hexhausted e m he hwants hm
    rcases mem_or_lt_of_asked hselect he hwants with hfound | ⟨-, hbehind⟩
    · exact List.mem_filterMap.mpr ⟨e, hfound, hm⟩
    · rw [hexhausted e he hwants hbehind] at hm
      cases hm

/-- Fewer messages than events: one of these makes none. -/
theorem length_filterMap_lt_iff :
    (es.filterMap Message.ofEvent?).length < es.length ↔
      ¬ ∀ e ∈ es, (Message.ofEvent? e).isSome := by
  rw [List.length_filterMap_eq_countP, ← List.countP_eq_length]
  exact ⟨Nat.ne_of_lt, Nat.lt_of_le_of_ne List.countP_le_length⟩

/-- A page that is short of messages ends the history if all events that it found make messages,
or else if no event behind them does. Short of events, it ends the history. -/
theorem shortPage_complete_iff {target : Target} (hpath : target.path = "/api/events".toList)
    (hstatus : (respond log "GET" target).status = 200) :
    ∃ ms limit es, Form.integer? "since" (Form.pairs target.query) = some ms ∧
      (∀ n ∈ ms, (Instant.ofMillis? n).isSome) ∧
      Form.integer? "limit" (Form.pairs target.query) = some limit ∧
      1 ≤ pageLimit limit ∧ pageLimit limit ≤ 1000 ∧
      log.select (asked ms limit) = .ok es ∧
      respond log "GET" target = { status := 200, body := page es } ∧
      let messages := es.filterMap Message.ofEvent?
      ((messages.length < pageLimit limit → Complete log (asked ms limit) messages) ↔
        (∀ e ∈ es, (Message.ofEvent? e).isSome) ∨ Exhausted log (asked ms limit) es) ∧
      (es.length < pageLimit limit → Complete log (asked ms limit) messages) ∧
      (messages = [] →
        ((∀ e, log.Holds e → (asked ms limit).Wants e → Message.ofEvent? e = none) ↔
          Exhausted log (asked ms limit) es)) := by
  rw [respond_history log hpath] at hstatus ⊢
  obtain ⟨c, es, hc, hselect, hresponse⟩ := history_eq_ok hstatus
  obtain ⟨ms, limit, hms, hinstant, hlimit, rfl⟩ := criteria?_eq_some hc
  obtain ⟨hlow, hhigh⟩ := pageLimit_bounds limit
  have hle : es.length ≤ pageLimit limit :=
    Log.length_le_of_select hselect rfl (pageLimit_nonneg limit)
  refine ⟨ms, limit, es, hms, hinstant, hlimit, hlow, hhigh, hselect, hresponse, ⟨?_, ?_⟩,
    complete_of_length_lt hselect, fun hempty => ?_⟩
  · intro hcomplete
    by_cases hall : ∀ e ∈ es, (Message.ofEvent? e).isSome
    · exact .inl hall
    · have hshort := length_filterMap_lt_iff.mpr hall
      exact .inr ((complete_iff_exhausted hselect).mp (hcomplete (by omega)))
  · rintro (hall | hexhausted) hshort
    · have hlength := mt length_filterMap_lt_iff.mp (not_not.mpr hall)
      exact complete_of_length_lt hselect (by omega)
    · exact (complete_iff_exhausted hselect).mpr hexhausted
  · rw [← complete_iff_exhausted hselect, hempty]
    refine ⟨fun hnone e m he hwants hm => ?_, fun hcomplete e he hwants => ?_⟩
    · rw [hnone e he hwants] at hm
      cases hm
    · exact Option.eq_none_iff_forall_ne_some.mpr fun m hm => nomatch hcomplete e m he hwants hm

end Page

/-- Two events after the tenth of a second, of which the second makes no message, and then one
before it. -/
def spoiled : List World.Move :=
  [.append (World.policyAt 200000), .append { World.policyAt 300000 with payload := "oops".toUTF8 },
    .append (World.policyAt 50000)]

/-- The address of the history with this query. -/
def historyTarget (query : String) : Target := ⟨"/api/events".toList, query.toList⟩

theorem shortPage_complete_of_spoiled :
    let log := ((World.new 1 1 .epoch).applyAll spoiled).log
    let response := respond log "GET" (historyTarget "since=100&limit=2")
    response.status = 200 ∧
      ∃ es, log.select (asked (some 100) (some 2)) = .ok es ∧ response.body = page es ∧
        es.length = 2 ∧ (es.filterMap Message.ofEvent?).length = 1 ∧
        Complete log (asked (some 100) (some 2)) (es.filterMap Message.ofEvent?) := by
  intro log response
  have hstatus : response.status = 200 := by decide +kernel
  have hms : Form.integer? "since" (Form.pairs "since=100&limit=2".toList) = some (some 100) := by
    decide +kernel
  have hlimit : Form.integer? "limit" (Form.pairs "since=100&limit=2".toList) = some (some 2) := by
    decide +kernel
  have hes : log.select (asked (some 100) (some 2)) =
      .ok (log.held.take 2) := by decide +kernel
  obtain ⟨ms, limit, es, hms', -, hlimit', -, -, hselect, hresponse, hcomplete, -⟩ :=
    shortPage_complete_iff rfl hstatus
  cases hms'.symm.trans hms
  cases hlimit'.symm.trans hlimit
  cases hselect.symm.trans hes
  exact ⟨hstatus, _, hselect, congrArg Response.body hresponse, by decide +kernel,
    by decide +kernel, hcomplete.mpr (.inr (by decide +kernel)) (by decide +kernel)⟩

/-- A page without messages that ends nothing: the limit was reached by an event that makes none. -/
theorem emptyPage_not_last :
    let first : Draft := { World.policyAt 100000 with payload := "oops".toUTF8 }
    let second : Draft := World.policyAt 200000
    let log := ((World.new 1 1 .epoch).applyAll [.append first, .append second]).log
    respond log "GET" (historyTarget "since=0&limit=1") =
        { status := 200, body := "\x7b\"events\":[],\"count\":0\x7d" } ∧
      log.Holds (second.event 2) ∧ Instant.epoch < second.createdAt ∧
      (Message.ofEvent? (second.event 2)).isSome := by
  intro first second log
  exact ⟨by decide +kernel, by decide +kernel, by decide +kernel, by decide +kernel⟩

end Http

end EventStream
