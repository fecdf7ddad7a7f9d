import EventStream.Proofs.Instant
import EventStream.Proofs.Subscription.Envelope

/-! Which values are requests, and how a text is answered from its envelope. -/

namespace EventStream

open Json

/-! ### Milliseconds -/

namespace Instant

/-- The milliseconds between the first and the last representable instant. -/
def InMillis (ms : Int) : Prop := -8334601228800000 ≤ ms ∧ ms ≤ 8210266876799999

theorem ofMillis?_eq_some_iff {ms : Int} {t : Instant} :
    ofMillis? ms = some t ↔ t.nano < 1000000000 ∧ t.nano % 1000000 = 0 ∧ t.millis = ms := by
  constructor
  · intro h
    obtain ⟨hsecond, hnano⟩ := ofUnix?_eq_some h
    refine ⟨by omega, by omega, ?_⟩
    simp only [millis]
    omega
  · rintro ⟨hleap, hwhole, rfl⟩
    have hsecond : t.millis / 1000 = t.second := by
      simp only [millis]
      omega
    have hnano : (t.millis % 1000).toNat * 1000000 = t.nano := by
      simp only [millis]
      omega
    rw [ofMillis?, hsecond, hnano, ofUnix?, dif_pos t.inRange]

theorem exists_ofMillis?_iff {ms : Int} : (∃ t, ofMillis? ms = some t) ↔ InMillis ms := by
  constructor
  · rintro ⟨t, h⟩
    obtain ⟨hleap, -, rfl⟩ := ofMillis?_eq_some_iff.mp h
    have hrange := t.inRange
    simp only [InRange, minSecond, maxSecond] at hrange
    simp only [InMillis, millis]
    omega
  · intro h
    simp only [InMillis] at h
    have hrange : InRange (ms / 1000) ((ms % 1000).toNat * 1000000) := by
      simp only [InRange, minSecond, maxSecond]
      omega
    exact ⟨_, dif_pos hrange⟩

end Instant

namespace Subscription

/-! ### Requests -/

/-- The last member of that key. -/
def IsLast (key : String) (v : Value) (members : List (String × Value)) : Prop :=
  ∃ front back, members = front ++ (key, v) :: back ∧ ∀ m ∈ back, m.1 ≠ key

/-- A cursor is an integer, or `null` for none. -/
inductive IsCursor : Value → Option Int → Prop where
  | null : IsCursor .null none
  | integer {ms} : IsCursor (.integer ms) (some ms)

/-- A request is an object with a string `channel` and perhaps a cursor `last_seen`, of two
members of one key the later, or an array of a channel and perhaps a cursor. -/
inductive IsRequest : Value → String → Option Int → Prop where
  | bare {members channel} (hchannel : IsLast "channel" (.string channel) members)
      (hcursor : ∀ m ∈ members, m.1 ≠ "last_seen") : IsRequest (.object members) channel none
  | object {members channel v cursor} (hchannel : IsLast "channel" (.string channel) members)
      (hcursor : IsLast "last_seen" v members) (h : IsCursor v cursor) :
      IsRequest (.object members) channel cursor
  | bareArray {channel} : IsRequest (.array [.string channel]) channel none
  | array {channel v cursor} (h : IsCursor v cursor) :
      IsRequest (.array [.string channel, v]) channel cursor

theorem member?_eq_some_iff {key : String} {v : Value} {members : List (String × Value)} :
    member? key members = some v ↔ IsLast key v members := by
  simp only [member?, Option.map_eq_some_iff, List.find?_eq_some_iff_append, Prod.exists,
    decide_eq_true_eq]
  constructor
  · rintro ⟨_, _, ⟨rfl, back, front, hsplit, hback⟩, rfl⟩
    have hmembers := congrArg List.reverse hsplit
    rw [List.reverse_reverse, List.reverse_append, List.reverse_cons, List.append_assoc] at hmembers
    exact ⟨front.reverse, back.reverse, hmembers, by simpa using hback⟩
  · rintro ⟨front, back, rfl, hback⟩
    exact ⟨key, v, ⟨rfl, back.reverse, front.reverse, by simp, by simpa using hback⟩, rfl⟩

theorem member?_eq_none_iff {key : String} {members : List (String × Value)} :
    member? key members = none ↔ ∀ m ∈ members, m.1 ≠ key := by
  simp [member?]

theorem cursor?_eq_some_iff {v : Value} {cursor : Option Int} :
    fields?.cursor? v = some cursor ↔ IsCursor v cursor := by
  constructor
  · intro h
    unfold fields?.cursor? at h
    split at h <;> cases h
    · exact .null
    · exact .integer
  · intro h
    cases h <;> rfl

theorem fields?_eq_some_iff {v : Value} {channel : String} {cursor : Option Int} :
    fields? v = some (channel, cursor) ↔ IsRequest v channel cursor := by
  constructor
  · intro h
    unfold fields? at h
    split at h
    · next members =>
      simp only [Option.bind_eq_bind, Option.bind_eq_some_iff] at h
      obtain ⟨c, hc, h⟩ := h
      split at h
      · simp only [Option.bind_eq_some_iff, Option.pure_def, Option.some.injEq, Prod.mk.injEq] at h
        obtain ⟨cursor, hcursor, rfl, rfl⟩ := h
        have hchannel := member?_eq_some_iff.mp hc
        cases hlast : member? "last_seen" members with
        | none =>
            rw [hlast] at hcursor
            cases hcursor
            exact .bare hchannel (member?_eq_none_iff.mp hlast)
        | some v =>
            rw [hlast] at hcursor
            exact .object hchannel (member?_eq_some_iff.mp hlast) (cursor?_eq_some_iff.mp hcursor)
      · cases h
    · cases h
      exact .bareArray
    · simp only [Option.bind_eq_bind, Option.bind_eq_some_iff, Option.pure_def, Option.some.injEq,
        Prod.mk.injEq] at h
      obtain ⟨cursor, hcursor, rfl, rfl⟩ := h
      exact .array (cursor?_eq_some_iff.mp hcursor)
    · cases h
  · intro h
    cases h with
    | bare hchannel hcursor =>
        simp only [fields?, member?_eq_some_iff.mpr hchannel, member?_eq_none_iff.mpr hcursor,
          Option.bind_eq_bind, Option.bind_some, Option.getD_none]
        rfl
    | object hchannel hcursor h =>
        simp only [fields?, member?_eq_some_iff.mpr hchannel, member?_eq_some_iff.mpr hcursor,
          Option.bind_eq_bind, Option.bind_some, Option.getD_some, cursor?_eq_some_iff.mpr h,
          Option.pure_def]
    | bareArray => rfl
    | array h =>
        simp only [fields?, cursor?_eq_some_iff.mpr h, Option.bind_eq_bind, Option.bind_some,
          Option.pure_def]

/-! ### Cursors -/

/-- The cursor is none or between the first and the last representable instant. -/
def InRange (cursor : Option Int) : Prop := ∀ ms ∈ cursor, Instant.InMillis ms

/-- The instant of a cursor is its very millisecond. -/
inductive IsInstant : Option Int → Option Instant → Prop where
  | none : IsInstant none none
  | some {ms : Int} {t : Instant} (hleap : t.nano < 1000000000) (hwhole : t.nano % 1000000 = 0)
      (hms : t.millis = ms) : IsInstant (some ms) (some t)

def instant? : Option Int → Option (Option Instant)
  | none => some none
  | some ms => (Instant.ofMillis? ms).map some

theorem instant?_eq_some_iff {cursor : Option Int} {lastSeen : Option Instant} :
    instant? cursor = some lastSeen ↔ IsInstant cursor lastSeen := by
  constructor
  · intro h
    cases cursor with
    | none => cases h; exact .none
    | some ms =>
        obtain ⟨t, ht, rfl⟩ := Option.map_eq_some_iff.mp h
        obtain ⟨hleap, hwhole, hms⟩ := Instant.ofMillis?_eq_some_iff.mp ht
        exact .some hleap hwhole hms
  · intro h
    cases h with
    | none => rfl
    | some hleap hwhole hms =>
        rw [instant?, Instant.ofMillis?_eq_some_iff.mpr ⟨hleap, hwhole, hms⟩, Option.map_some]

theorem exists_instant?_iff {cursor : Option Int} :
    (∃ lastSeen, instant? cursor = some lastSeen) ↔ InRange cursor := by
  cases cursor with
  | none => exact ⟨fun _ _ h => (nomatch h), fun _ => ⟨none, rfl⟩⟩
  | some ms =>
      have hrange : InRange (some ms) ↔ Instant.InMillis ms := by simp [InRange]
      rw [hrange, ← Instant.exists_ofMillis?_iff]
      constructor
      · rintro ⟨_, h⟩
        obtain ⟨t, ht, -⟩ := Option.map_eq_some_iff.mp h
        exact ⟨t, ht⟩
      · rintro ⟨t, ht⟩
        exact ⟨some t, by rw [instant?, ht, Option.map_some]⟩

theorem ofName?_eq_some_iff {name : String} {channel : Channel} :
    Channel.ofName? name = some channel ↔ name = "system_events" := by
  cases channel
  simp [Channel.ofName?, Channel.all, Channel.name, eq_comm]

theorem ofName?_eq_none_iff {name : String} :
    Channel.ofName? name = none ↔ name ≠ "system_events" := by
  simp [Channel.ofName?, Channel.all, Channel.name, eq_comm]

/-! ### The answer to an envelope -/

/-- The answer to a type and what its data request. -/
def answer (type : String) (request : Option (String × Option Int)) :
    Except Refusal Subscription :=
  if type ≠ "subscribe" then .error (.unknownType type)
  else
    match request with
    | none => .error .invalidSubscription
    | some (name, cursor) =>
      match instant? cursor, Channel.ofName? name with
      | none, _ => .error .invalidSubscription
      | some _, none => .error (.unknownChannel name)
      | some lastSeen, some channel => .ok { channel, lastSeen }

theorem decode_eq (text : String) :
    decode text =
      match document? text.toList >>= Envelope.ofTree? with
      | none => .error .invalidMessage
      | some e => answer e.type (e.data >>= fields?) := by
  unfold decode
  cases document? text.toList >>= Envelope.ofTree? with
  | none => rfl
  | some e =>
      simp only [answer]
      split
      · rfl
      · cases e.data >>= fields? with
        | none => rfl
        | some request =>
            obtain ⟨name, cursor⟩ := request
            cases cursor with
            | none =>
                simp only [instant?]
                cases Channel.ofName? name <;> rfl
            | some ms =>
                simp only [instant?]
                cases Instant.ofMillis? ms with
                | none => rfl
                | some t => cases Channel.ofName? name <;> rfl

/-- The first fault decides: the type, then the data's shape and the cursor's range, then the
channel. -/
inductive Answers (type : String) (request : Option (String × Option Int)) :
    Except Refusal Subscription → Prop where
  | unknownType (htype : type ≠ "subscribe") :
      Answers type request (.error (.unknownType type))
  | invalidSubscription (htype : type = "subscribe")
      (hrequest : ¬ ∃ name cursor, request = some (name, cursor) ∧ InRange cursor) :
      Answers type request (.error .invalidSubscription)
  | unknownChannel {name cursor} (htype : type = "subscribe")
      (hrequest : request = some (name, cursor)) (hrange : InRange cursor)
      (hname : name ≠ "system_events") : Answers type request (.error (.unknownChannel name))
  | ok {cursor lastSeen} (htype : type = "subscribe")
      (hrequest : request = some ("system_events", cursor)) (hinstant : IsInstant cursor lastSeen) :
      Answers type request (.ok { channel := .systemEvents, lastSeen })

theorem answers_answer (type : String) (request : Option (String × Option Int)) :
    Answers type request (answer type request) := by
  unfold answer
  split
  · next htype => exact .unknownType htype
  · next htype =>
    rw [ne_eq, Decidable.not_not] at htype
    split
    · exact .invalidSubscription htype (by simp)
    · next name cursor =>
      split
      · next hinstant =>
        refine .invalidSubscription htype ?_
        rintro ⟨_, _, hrequest, hrange⟩
        cases hrequest
        obtain ⟨_, h⟩ := exists_instant?_iff.mpr hrange
        rw [hinstant] at h
        cases h
      · next hinstant hname =>
        exact .unknownChannel htype rfl (exists_instant?_iff.mp ⟨_, hinstant⟩)
          (ofName?_eq_none_iff.mp hname)
      · next channel hinstant hname =>
        cases channel
        rw [ofName?_eq_some_iff.mp hname]
        exact .ok htype rfl (instant?_eq_some_iff.mp hinstant)

theorem Answers.eq_answer {type : String} {request : Option (String × Option Int)}
    {r : Except Refusal Subscription} (h : Answers type request r) : answer type request = r := by
  unfold answer
  cases h with
  | unknownType htype => exact if_pos htype
  | invalidSubscription htype hrequest =>
      rw [if_neg (not_not_intro htype)]
      match request with
      | none => rfl
      | some (name, cursor) =>
        have hnone : instant? cursor = none := by
          cases hinstant : instant? cursor with
          | none => rfl
          | some lastSeen =>
              exact absurd ⟨name, cursor, rfl, exists_instant?_iff.mp ⟨_, hinstant⟩⟩ hrequest
        simp only [hnone]
  | unknownChannel htype hrequest hrange hname =>
      obtain ⟨lastSeen, hinstant⟩ := exists_instant?_iff.mpr hrange
      rw [if_neg (not_not_intro htype), hrequest]
      simp only [hinstant, ofName?_eq_none_iff.mpr hname]
  | ok htype hrequest hinstant =>
      have hname : Channel.ofName? "system_events" = some .systemEvents :=
        ofName?_eq_some_iff.mpr rfl
      rw [if_neg (not_not_intro htype), hrequest]
      simp only [instant?_eq_some_iff.mpr hinstant, hname]

end Subscription

end EventStream
