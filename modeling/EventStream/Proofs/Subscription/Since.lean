import EventStream.Proofs.Json.Writing
import EventStream.Proofs.Subscription

/-! The request of a subscriber that has seen everything up to a millisecond. -/

namespace EventStream

open Json

namespace Subscription

/-- The request for the events after a millisecond, written without blanks. -/
def sinceText (ms : Int) : String :=
  "\x7b\"type\":\"subscribe\",\"data\":" ++
    ("\x7b\"channel\":\"system_events\",\"last_seen\":" ++ toString ms ++ "\x7d") ++ "\x7d"

/-- Its data. -/
def sinceMembers (ms : Int) : List (List Piece × Tree) :=
  [(plain "channel", .string (plain "system_events")), (plain "last_seen", .number (numberOf ms))]

theorem valueText_plain {s : String} (h : isPlain s = true) :
    ValueText ('"' :: (s.toList ++ ['"'])) (.string (plain s)) :=
  .string (stringText_plain h)

theorem toList_request (cursor : String) :
    ("\x7b\"type\":\"subscribe\",\"data\":" ++
      ("\x7b\"channel\":\"system_events\",\"last_seen\":" ++ cursor ++ "\x7d") ++
        "\x7d").toList =
      '{' :: ('"' :: ("type".toList ++ '"' :: ':' :: ('"' :: ("subscribe".toList ++ ['"']) ++
        ',' :: ('"' :: ("data".toList ++ '"' :: ':' ::
          ('{' :: ('"' :: ("channel".toList ++ '"' :: ':' ::
            ('"' :: ("system_events".toList ++ ['"']) ++
              ',' :: ('"' :: ("last_seen".toList ++ '"' :: ':' :: (cursor.toList ++ ['}'])))))) ++
            ['}'])))))) := by
  simp [String.toList_append]

theorem documentText_sinceText (ms : Int) :
    DocumentText (sinceText ms).toList (.object [(plain "type", .string (plain "subscribe")),
      (plain "data", .object (sinceMembers ms))]) := by
  have htype : isPlain "type" = true := by decide
  have hdata : isPlain "data" = true := by decide
  have hchannel : isPlain "channel" = true := by decide
  have hseen : isPlain "last_seen" = true := by decide
  have hrequest : isPlain "subscribe" = true := by decide
  have hname : isPlain "system_events" = true := by decide
  have hinner := ValueText.object isBlanks_nil (membersText_more hchannel (valueText_plain hname)
    (membersText_last hseen (.number (numberText_numberOf ms))))
  have houter := ValueText.object isBlanks_nil (membersText_more htype (valueText_plain hrequest)
    (membersText_last hdata hinner))
  refine ⟨[], _, [], isBlanks_nil, isBlanks_nil, ?_, houter⟩
  rw [List.nil_append, List.nil_append, List.nil_append, List.append_nil]
  exact toList_request (toString ms)

theorem value?_sinceMembers {ms : Int} (h : Instant.InMillis ms) :
    (Tree.object (sinceMembers ms)).value? Envelope.dataDepth =
      some (.object [("channel", .string "system_events"), ("last_seen", .integer ms)]) := by
  have hrange : -Int.pow 2 63 ≤ ms ∧ ms < Int.pow 2 64 := by
    simp only [Instant.InMillis] at h
    have hlow : Int.pow 2 63 = 9223372036854775808 := by decide
    have hhigh : Int.pow 2 64 = 18446744073709551616 := by decide
    omega
  have hchannel : text? (plain "channel") = some "channel" := by decide
  have hname : text? (plain "system_events") = some "system_events" := by decide
  have hseen : text? (plain "last_seen") = some "last_seen" := by decide
  simp [sinceMembers, Tree.value?, Tree.valueWith?, Tree.memberValues?, Envelope.dataDepth,
    maxDepth, isEmbedding, embeddingKey, hchannel, hname, hseen, integer?_numberOf hrange]

/-- The request is read as a subscription from the very instant of the millisecond. -/
theorem decode_sinceText {ms : Int} {cursor : Instant} (h : Instant.ofMillis? ms = some cursor) :
    decode (sinceText ms) = .ok { channel := .systemEvents, lastSeen := some cursor } := by
  have hvalue := value?_sinceMembers (Instant.exists_ofMillis?_iff.mp ⟨cursor, h⟩)
  obtain ⟨hleap, hwhole, hms⟩ := Instant.ofMillis?_eq_some_iff.mp h
  have hnames : HasNames [(plain "type", .string (plain "subscribe")),
      (plain "data", .object (sinceMembers ms))] := by
    simp only [HasNames, List.forall_mem_cons]
    exact ⟨⟨"type", by decide⟩, ⟨"data", by decide⟩, by simp⟩
  have htype : text? (plain "subscribe") = some "subscribe" := by decide
  refine (decode_eq_ok_iff _ _).mpr ⟨rfl, _, _, some ms, documentText_sinceText ms,
    .object hnames rfl htype rfl (.value (by simp) hvalue), ?_, .some hleap hwhole hms⟩
  exact .object ⟨[], [("last_seen", .integer ms)], rfl, by simp⟩
    ⟨[("channel", .string "system_events")], [], rfl, by simp⟩ .integer

end Subscription

end EventStream
