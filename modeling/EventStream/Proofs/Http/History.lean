import EventStream.Http
import EventStream.Proofs.Http.Form
import EventStream.Proofs.Log
import EventStream.Proofs.Subscription.Request

/-! The page of the history that is answered to a query for what is newer than a millisecond. -/

namespace EventStream

/-- A bounded reader with room for everything newer than the cursor reads just that. -/
theorem Log.select_since {log : Log} {cursor : Instant}
    (hfew : (log.rows.filter (cursor.micros < ·.createdAt)).length ≤ 1000) :
    log.select { since := some cursor, limit := some 1000 } = log.eventsAfter cursor := by
  rw [select, eventsAfter, Criteria.admits_since]
  simp only [Criteria.take, Option.getD_some]
  rw [if_neg (by decide)]
  exact congrArg events (List.take_of_length_le hfew)

namespace Http

/-- The query string that asks for a full page of what is newer than a millisecond. -/
def sinceQuery (ms : Int) : List Char := ("since=" ++ toString ms ++ "&limit=1000").toList

theorem isPlain_toString (i : Int) : Form.IsPlain (toString i).toList := by
  refine Form.IsPlain.of_isDigit fun c hc => ?_
  rw [Numeral.toList_toString] at hc
  split at hc
  · rcases List.mem_cons.mp hc with rfl | hc
    · exact .inr rfl
    · exact .inl (Numeral.isDigit_of_mem_toDigits hc)
  · exact .inl (Numeral.isDigit_of_mem_toDigits hc)

theorem pairs_sinceQuery (ms : Int) :
    Form.pairs (sinceQuery ms) =
      [(some "since", some (toString ms)), (some "limit", some "1000")] := by
  have htext : sinceQuery ms = ("since".toList ++ '=' :: (toString ms).toList) ++
      '&' :: ("limit".toList ++ '=' :: "1000".toList) := by
    simp [sinceQuery, String.toList_append]
  rw [htext, Form.pairs_cons (by decide) (isPlain_toString ms),
    Form.pairs_single (by decide) (by decide)]
  simp

theorem integer?_sinceQuery (ms : Int) :
    Form.integer? "since" (Form.pairs (sinceQuery ms)) =
        (if -Int.pow 2 63 ≤ ms ∧ ms < Int.pow 2 63 then some (some ms) else none) ∧
      Form.integer? "limit" (Form.pairs (sinceQuery ms)) = some (some 1000) := by
  have hthousand : Numeral.signed? "1000".toList = some 1000 := by decide +kernel
  rw [pairs_sinceQuery]
  exact ⟨Form.integer?_of_filter (by simp) (Numeral.signed?_toString ms),
    (Form.integer?_of_filter (by simp) hthousand).trans (if_pos (by decide))⟩

/-- The query is accepted just if the millisecond is an instant. -/
theorem criteria?_sinceQuery (ms : Int) :
    criteria? (sinceQuery ms) =
      (Instant.ofMillis? ms).map fun cursor => { since := some cursor, limit := some 1000 } := by
  obtain ⟨hsince, hlimit⟩ := integer?_sinceQuery ms
  by_cases hrange : -Int.pow 2 63 ≤ ms ∧ ms < Int.pow 2 63
  · rw [if_pos hrange] at hsince
    simp only [criteria?, hsince, hlimit, Option.bind_eq_bind, Option.bind_some]
    cases Instant.ofMillis? ms <;> rfl
  · have hnone : Instant.ofMillis? ms = none := by
      refine Option.eq_none_iff_forall_ne_some.mpr fun t ht => hrange ?_
      have hms := Instant.exists_ofMillis?_iff.mp ⟨t, ht⟩
      simp only [Instant.InMillis] at hms
      have hpow : Int.pow 2 63 = 9223372036854775808 := by decide
      omega
    rw [if_neg hrange] at hsince
    simp only [criteria?, hsince, hnone, Option.bind_eq_bind, Option.bind_none, Option.map_none]

/-- The response to what has been found. -/
def answer : Except LogError (List Event) → Response
  | .ok events => { status := 200, body := page events }
  | .error _ => { status := 500 }

theorem history_sinceQuery {log : Log} {ms : Int} {cursor : Instant}
    (h : Instant.ofMillis? ms = some cursor)
    (hfew : (log.rows.filter (cursor.micros < ·.createdAt)).length ≤ 1000) :
    history log (sinceQuery ms) = answer (log.eventsAfter cursor) := by
  simp only [history, criteria?_sinceQuery, h, Option.map_some, Log.select_since hfew]
  cases log.eventsAfter cursor <;> rfl

/-- The request for the history is a `GET` of its path. -/
theorem respond_history (log : Log) {target : Target} (h : target.path = "/api/events".toList) :
    respond log "GET" target = history log target.query := by
  have hpath : "/api/events".toList ≠ "/health".toList := by decide +kernel
  unfold respond
  rw [if_neg (by decide), h, if_neg hpath, if_pos rfl, get, if_pos rfl]

end Http

end EventStream
