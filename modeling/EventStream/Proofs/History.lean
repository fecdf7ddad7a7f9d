import EventStream.Proofs.Delivery.Announced
import EventStream.Proofs.Delivery.History
import EventStream.Proofs.Http.History
import EventStream.Proofs.Subscription.Since

/-! A reader of the history and a connection that has just been opened are told the same of what
is newer than a millisecond. -/

namespace EventStream

/-- The messages of the events after the cursor. -/
def Log.messagesAfter (log : Log) (cursor : Instant) : Except LogError (List Message) :=
  (log.eventsAfter cursor).map (·.filterMap Message.ofEvent?)

/-- A response to a reader and the frames of a connection tell of the same messages: the response
as members of an array with their number, the frames one by one and then the confirmation. Where
there are none to be had, both say so. -/
inductive SameHistory : Except LogError (List Message) → Http.Response → List String → Prop where
  | found (messages : List Message) :
      SameHistory (.ok messages)
        { status := 200
          body := "\x7b\"events\":[" ++ ",".intercalate (messages.map Message.text) ++
            "],\"count\":" ++ toString messages.length ++ "\x7d" }
        (messages.map (fun m => Frame.envelope "event" m.text) ++
          [(Frame.subscriptionConfirmed .systemEvents).text])
  | failed (error : LogError) :
      SameHistory (.error error) { status := 500 } [Frame.historyFailed.text]

theorem HistoryFrames.sameHistory {found : Except LogError (List Event)} {frames : List Frame}
    (h : HistoryFrames .systemEvents found frames) :
    SameHistory (found.map (·.filterMap Message.ofEvent?)) (Http.answer found)
      (frames.map Frame.text) := by
  cases h with
  | failed error => exact .failed error
  | confirmed events =>
      have hframes : (framesOf events).map Frame.text =
          (events.filterMap Message.ofEvent?).map fun m => Frame.envelope "event" m.text := by
        simp only [framesOf, List.map_map]
        rfl
      rw [List.map_append, hframes]
      exact .found (events.filterMap Message.ofEvent?)

namespace World

/-- The connection is open, and nothing has been sent to it or asked for on it. -/
structure Fresh (c : ConnectionId) (w : World) : Prop where
  opened : c < w.hub.opened
  subscriber : ∃ capacity, w.hub.subscriber c = { outbound := { capacity } }
  unasked : ∀ j r, w.hub.task j = .replay r → r.connection ≠ c

theorem fresh_connect {w : World} (hw : w.hub.Tidy) (hup : w.hub.isShutDown = false) :
    (w.apply .connect).Fresh w.hub.opened where
  opened := Nat.lt_succ_self _
  subscriber := ⟨w.hub.capacity, by
    change update w.hub.subscriber w.hub.opened _ w.hub.opened = _
    rw [update_self, hup]⟩
  unasked := fun j r hr => Nat.ne_of_lt (hw.replays j r hr)

section Agreement

variable {capacity replays : Nat} {start : Instant} {past : List (World × Move)} {v : World}
  {c : ConnectionId} {request : Subscription} {cursor : Instant} {ms : Int}

theorem alone_of_fresh (hv : v.hub.Tidy) (hu : v.Unbroken) (hfresh : v.Fresh c) :
    Alone c v.hub.started request cursor (v.apply (.subscribe c request))
      (v.apply (.subscribe c request)) where
  tidy := tidy_apply hv hfresh.opened
  unbroken := unbroken_step hu (effect hv hfresh.opened)
  lone := by
    obtain ⟨capacity, hs⟩ := hfresh.subscriber
    have hsub : (v.apply (.subscribe c request)).hub.subscriber c = { outbound := { capacity } } :=
      hs
    refine ⟨rfl, rfl, fun j q hj hq => ?_, by rw [hsub], by rw [hsub], rfl, .arriving,
      update_self .., by rw [hsub], by rw [hsub]⟩
    by_contra hne
    exact hfresh.unasked j q ((update_of_ne _ _ hne).symm.trans hj) hq

/-- What is newer than a millisecond is told to a reader of the history and, as long as no tick
comes between, to a connection that asks for it first of all: the same data in the same order, or
to both that they cannot be had. With room in the queue for all of it the connection's replay
comes to its end, unless others keep it from a permit. -/
theorem sameHistory_of_fresh
    (run : Run (fun u m => u.Possible m ∧ u.Appends m) (.new capacity replays start) past v)
    (hfresh : v.Fresh c) (hms : Instant.ofMillis? ms = some cursor)
    (hfew : (v.log.rows.filter (cursor.micros < ·.createdAt)).length ≤ 1000) :
    ∃ request, Subscription.decode (Subscription.sinceText ms) = .ok request ∧
      let k := v.hub.started
      let u := v.apply (.subscribe c request)
      let response := Http.respond v.log "GET" ⟨"/api/events".toList, Http.sinceQuery ms⟩
      (∀ past' w, Run (Calm c k) u past' w → (w.hub.task k).isEnded = true →
        let accepted := (w.hub.subscriber c).outbound.accepted
        SameHistory (v.log.messagesAfter cursor) response (accepted.map Frame.text) ∧
          (response.status = 500 ↔ accepted.getLast? = some .historyFailed)) ∧
      ∀ past' w, Run (Calm c k) u past' w → w.Spare (max 1 replays) k →
        0 < (v.hub.subscriber c).outbound.capacity →
        (∀ messages, v.log.messagesAfter cursor = .ok messages →
          messages.length < (v.hub.subscriber c).outbound.capacity) →
        ∃ past'' w', Run (Calm c k) w past'' w' ∧ (w'.hub.task k).isEnded = true := by
  let request : Subscription := { channel := .systemEvents, lastSeen := some cursor }
  have hrun := run.mono fun _ _ h => h.1
  have halone : Alone c v.hub.started request cursor (v.apply (.subscribe c request))
      (v.apply (.subscribe c request)) :=
    alone_of_fresh (tidy_of_run hrun) (unbroken_of_run hrun) hfresh
  have hfound : IsNumbered (v.log.eventsAfter cursor) := fun events heq =>
    ⟨Log.eventsAfter_ascending heq, fun e he => id_pos_of_appends (run.mono fun _ _ h => h.2)
      ((Log.mem_of_eventsAfter_eq_ok heq).mp he).1⟩
  refine ⟨request, Subscription.decode_sinceText hms, fun past' w run' hended => ?_,
    fun past' w run' hspare hpos hroom => ?_⟩
  · have hframes := (halone.of_run rfl hfound run').historyFrames hended
    change HistoryFrames .systemEvents (v.log.eventsAfter cursor) _ at hframes
    rw [Http.respond_history v.log rfl, Http.history_sinceQuery hms hfew]
    refine ⟨hframes.sameHistory, ?_⟩
    generalize v.log.eventsAfter cursor = found at hframes
    generalize (w.hub.subscriber c).outbound.accepted = accepted at hframes ⊢
    cases hframes <;> simp [Http.answer, Frame.historyFailed]
  · -- Permits are accounted for from the very start, so the run up to the request is needed too.
    have hreach : Run Possible (.new capacity replays start) _ w :=
      (hrun.cons (m := .subscribe c request) hfresh.opened).append
        (run'.mono fun _ _ h => h.possible)
    refine (halone.of_run rfl hfound run').exists_run (accounted_of_run hreach) hspare rfl hfound
      hpos fun events heq => ?_
    rw [framesOf, List.length_map]
    refine hroom (events.filterMap Message.ofEvent?) ?_
    rw [Log.messagesAfter, show v.log.eventsAfter cursor = .ok events from heq]
    rfl

end Agreement

instance (c : ConnectionId) (k : TaskId) (w : World) : (m : Move) → Decidable (w.LeavesBe c k m)
  | .append _ | .insertRow .. | .deleteRow _ | .shutdown | .startTick | .resetCursor _
  | .advanceCursor _ | .announce _ | .markBroadcast _ => .isFalse id
  | .disconnect d | .subscribe d _ | .closeReceiver d | .send d _ | .offerLive d .. =>
    inferInstanceAs (Decidable (d ≠ c))
  | .advance j => inferInstanceAs (Decidable ((w.hub.task j).isTick = false))
  | .answer j _ => inferInstanceAs (Decidable (j = k → ∀ cursor ∈ (w.hub.task k).question?, _))
  | .connect | .register _ | .deregister _ | .toss _ | .receive .. => .isTrue trivial

instance (c : ConnectionId) (k : TaskId) (w : World) (m : Move) : Decidable (w.Calm c k m) :=
  decidable_of_iff (w.Possible m ∧ w.Accepts c m ∧ w.LeavesBe c k m)
    ⟨fun ⟨hp, ha, hl⟩ => ⟨hp, ha, hl⟩, fun h => ⟨h.possible, h.accepts, h.leavesBe⟩⟩

/-- Three events after the tenth of a second, not in the order of their times, and one before. The
payload of the second is no JSON. -/
def unordered : List Move :=
  [.append (policyAt 300000), .append { policyAt 200000 with payload := "policy".toUTF8 },
    .append (policyAt 50000), .append { policyAt 150000 with payload := " [1] ".toUTF8 }]

/-- A replay of the history from its start to its end. -/
def replayed (answer : Answer) : List Move :=
  List.replicate 5 (.advance 0) ++ [.answer 0 answer] ++ List.replicate 7 (.advance 0)

theorem sameHistory_of_unordered :
    let v := ((new 8 8 .epoch).applyAll unordered).apply .connect
    let request : Subscription := ⟨.systemEvents, some (policyAt 100000).createdAt⟩
    let w := (v.apply (.subscribe 0 request)).applyAll
      (replayed (v.log.reply (policyAt 100000).createdAt))
    let response := Http.respond v.log "GET" ⟨"/api/events".toList, Http.sinceQuery 100⟩
    let accepted := (w.hub.subscriber 0).outbound.accepted
    v.Fresh 0 ∧ (w.hub.task v.hub.started).isEnded = true ∧
      SameHistory (v.log.messagesAfter (policyAt 100000).createdAt) response
        (accepted.map Frame.text) ∧ response.status = 200 ∧ accepted.length = 3 := by
  intro v request w response accepted
  have run : Run (fun u m => u.Possible m ∧ u.Appends m) (new 8 8 .epoch)
      ((new 8 8 .epoch).history [] (unordered ++ [.connect])) v :=
    Follows.run (by decide +kernel) .nil
  have run' : Run (Calm 0 v.hub.started) (v.apply (.subscribe 0 request))
      ((v.apply (.subscribe 0 request)).history []
        (replayed (v.log.reply (policyAt 100000).createdAt))) w :=
    Follows.run (by decide +kernel) .nil
  have before : Run Possible (new 8 8 .epoch) ((new 8 8 .epoch).history [] unordered)
      ((new 8 8 .epoch).applyAll unordered) := Follows.run (by decide +kernel) .nil
  have hfresh : v.Fresh 0 := fresh_connect (tidy_of_run before) rfl
  have hms : Instant.ofMillis? 100 = some (policyAt 100000).createdAt := by decide +kernel
  have hdecode : Subscription.decode (Subscription.sinceText 100) = .ok request := by
    decide +kernel
  have hended : (w.hub.task v.hub.started).isEnded = true := by decide +kernel
  obtain ⟨request', hdecode', h, -⟩ := sameHistory_of_fresh run hfresh hms (by decide +kernel)
  cases hdecode'.symm.trans hdecode
  exact ⟨hfresh, hended, (h _ w run' hended).1, by decide +kernel, by decide +kernel⟩

end World

end EventStream
