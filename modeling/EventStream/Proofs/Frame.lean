import EventStream.Frame
import EventStream.Proofs.Instant.Rfc3339
import EventStream.Proofs.Json.Members
import EventStream.Proofs.Json.Writing
import EventStream.Proofs.Uuid

/-! Frames of events: an event has one exactly if its payload is JSON, the frame is JSON
again, and a reader finds in it what the event holds and nothing else. -/

namespace EventStream

open Json Numeral

/-! ### Payloads -/

/-- The payload's value is written `raw`: the payload is that text among blanks, or it is
empty, for which `null` stands. -/
inductive PayloadText : ByteArray → List Char → Prop where
  | empty {payload} (h : payload.size = 0) : PayloadText payload ['n', 'u', 'l', 'l']
  | value {payload b raw b' t} (hb : IsBlanks b) (hb' : IsBlanks b') (h : ValueText raw t)
      (hpayload : payload = (String.ofList (b ++ (raw ++ b'))).toUTF8) : PayloadText payload raw

theorem fromUTF8?_eq_some_iff {payload : ByteArray} {text : String} :
    String.fromUTF8? payload = some text ↔ payload = text.toUTF8 := by
  unfold String.fromUTF8?
  split
  · constructor
    · intro h; cases h; rfl
    · rintro rfl; rfl
  · next hinvalid =>
    constructor
    · intro h; cases h
    · rintro rfl
      exact absurd text.isValidUTF8 hinvalid

theorem size_toUTF8_ne_zero {c : Char} {cs : List Char} :
    (String.ofList (c :: cs)).toUTF8.size ≠ 0 := by
  intro h
  rw [String.toUTF8_eq_toByteArray, String.size_toByteArray, String.utf8ByteSize_eq_zero_iff] at h
  exact absurd (congrArg String.toList h) (by simp)

theorem PayloadText.valueText {payload : ByteArray} {raw : List Char}
    (h : PayloadText payload raw) : ∃ t, ValueText raw t := by
  cases h with
  | empty => exact ⟨_, .null⟩
  | value _ _ h => exact ⟨_, h⟩

theorem data?_eq_some_iff {payload : ByteArray} {data : String} :
    Message.data? payload = some data ↔ PayloadText payload data.toList := by
  unfold Message.data?
  split
  · next hempty =>
    constructor
    · intro h
      cases h
      exact .empty hempty
    · intro h
      generalize hraw : data.toList = raw at h
      cases h with
      | empty => exact congrArg some (String.toList_inj.mp hraw.symm)
      | @value b _ b' _ _ _ h hpayload =>
          obtain ⟨c, cs, hcs⟩ := List.exists_cons_of_ne_nil (l := b ++ (raw ++ b')) (by
            obtain ⟨c, cs, rfl, -⟩ := h.exists_cons
            simp)
          rw [hpayload, hcs] at hempty
          exact absurd hempty size_toUTF8_ne_zero
  · next hsize =>
    simp only [Option.bind_eq_bind, Option.bind_eq_some_iff, fromUTF8?_eq_some_iff,
      verbatim?_eq_some_iff, Option.pure_def, Option.some.injEq]
    constructor
    · rintro ⟨text, rfl, raw, ⟨b, b', t, hb, hb', htext, h⟩, rfl⟩
      rw [String.toList_ofList]
      exact .value hb hb' h (by rw [← htext, String.ofList_toList])
    · intro h
      generalize hraw : data.toList = raw at h
      cases h with
      | empty h => exact absurd h hsize
      | @value b _ b' t hb hb' h hpayload =>
          exact ⟨_, hpayload, raw, ⟨b, b', t, hb, hb', String.toList_ofList, h⟩,
            by rw [← hraw, String.ofList_toList]⟩

/-- The payloads that have a text are the empty one and the documents. -/
theorem exists_payloadText_iff {payload : ByteArray} :
    (∃ raw, PayloadText payload raw) ↔
      payload.size = 0 ∨ ∃ (text : String) (t : Tree), payload = text.toUTF8 ∧
        DocumentText text.toList t := by
  constructor
  · rintro ⟨raw, h⟩
    cases h with
    | empty h => exact .inl h
    | @value b _ b' t hb hb' h hpayload =>
        exact .inr ⟨_, t, hpayload, b, raw, b', hb, hb', String.toList_ofList, h⟩
  · rintro (h | ⟨text, t, rfl, b, raw, b', hb, hb', htext, h⟩)
    · exact ⟨_, .empty h⟩
    · exact ⟨raw, .value hb hb' h (by rw [← htext, String.ofList_toList])⟩

theorem frameText?_eq_some_iff {e : Event} {frame : String} :
    e.frameText? = some frame ↔ ∃ data : String, PayloadText e.payload data.toList ∧
      frame = (Frame.event { e with data }).text := by
  simp only [Event.frameText?, Message.ofEvent?, Option.bind_eq_bind, Option.map_eq_some_iff,
    Option.bind_eq_some_iff, data?_eq_some_iff, Option.pure_def, Option.some.injEq]
  constructor
  · rintro ⟨_, ⟨data, hdata, rfl⟩, rfl⟩
    exact ⟨data, hdata, rfl⟩
  · rintro ⟨data, hdata, rfl⟩
    exact ⟨_, ⟨data, hdata, rfl⟩, rfl⟩

/-! ### What a reader finds -/

/-- The policy's member, if there is one. -/
inductive ReadsPolicy : List (List Piece × List Char) → Option Uuid → Prop where
  | absent : ReadsPolicy [] none
  | present {cs text u} (h : SpellsString cs text) (hu : Uuid.parse? text = some u) :
      ReadsPolicy [(plain "policy_id", cs)] (some u)

/-- The members of a frame's data tell of the event; `raw` is what is written for its payload. -/
inductive Tells (e : Event) (raw : List Char) : List (List Piece × List Char) → Prop where
  | mk {id key policy label time text} (hid : signed? id = some e.id)
      (hkey : SpellsNullable key e.publicKey) (hpolicy : ReadsPolicy policy e.policyId)
      (hlabel : SpellsString label e.label.text) (htime : SpellsString time text)
      (hat : Instant.ofRfc3339? text = some e.createdAt) :
      Tells e raw ([(plain "id", id), (plain "public_key", key)] ++ policy ++
        [(plain "event_type", label), (plain "event_data", raw), (plain "created_at", time)])

theorem ReadsPolicy.unique {members : List (List Piece × List Char)} {u u' : Option Uuid}
    (h : ReadsPolicy members u) (h' : ReadsPolicy members u') : u' = u := by
  cases h with
  | absent => cases h' with | absent => rfl
  | present h hu =>
      cases h' with
      | present h' hu' =>
          cases h.unique h'
          exact hu'.symm.trans hu

/-- One text tells of one event only. -/
theorem Tells.unique {e e' : Event} {raw raw' : List Char}
    {members : List (List Piece × List Char)} (h : Tells e raw members)
    (h' : Tells e' raw' members) :
    e'.id = e.id ∧ e'.publicKey = e.publicKey ∧ e'.policyId = e.policyId ∧
      e'.label.text = e.label.text ∧ e'.createdAt = e.createdAt ∧ raw' = raw := by
  generalize hmembers : members = members' at h'
  obtain ⟨hid, hkey, hpolicy, hlabel, htime, hat⟩ := h
  obtain ⟨hid', hkey', hpolicy', hlabel', htime', hat'⟩ := h'
  obtain ⟨hfront, hback⟩ := List.append_inj' hmembers rfl
  simp only [List.cons_append, List.nil_append, List.cons.injEq, Prod.mk.injEq, true_and,
    and_true] at hfront hback
  obtain ⟨rfl, rfl, rfl⟩ := hfront
  obtain ⟨rfl, rfl, rfl⟩ := hback
  cases htime.unique htime'
  exact ⟨Option.some.inj (hid'.symm.trans hid), hkey'.unique hkey, hpolicy.unique hpolicy',
    hlabel'.unique hlabel, Option.some.inj (hat'.symm.trans hat), rfl⟩

/-! ### What is written -/

/-- The members that are written for a policy. -/
def policyMembers : Option Uuid → List (List Piece × List Char)
  | some u => [(plain "policy_id", (quote u.hyphenated).toList)]
  | none => []

theorem readsPolicy_policyMembers (policyId : Option Uuid) :
    ReadsPolicy (policyMembers policyId) policyId := by
  cases policyId with
  | none => exact .absent
  | some u => exact .present (spellsString_quote _) (Uuid.parse?_hyphenated u)

theorem memberTexts_policy (policyId : Option Uuid) {rest : List Char}
    {members : List (List Piece × List Char)} (hrest : MemberTexts rest members) :
    MemberTexts ((Message.policyText policyId).toList ++ rest)
      (policyMembers policyId ++ members) := by
  cases policyId with
  | none => exact hrest
  | some u =>
      obtain ⟨_, hquote, -⟩ := spellsString_quote u.hyphenated
      have htext : (Message.policyText (some u)).toList ++ rest =
          '"' :: ("policy_id".toList ++ '"' :: ':' ::
            ((quote u.hyphenated).toList ++ ',' :: rest)) := by
        simp [Message.policyText, String.toList_append]
      rw [htext]
      exact memberTexts_more (by decide) hquote hrest

/-- The members that are written for an event. -/
def eventMembers (e : Event) (raw : List Char) : List (List Piece × List Char) :=
  [(plain "id", (toString e.id).toList), (plain "public_key", (quote? e.publicKey).toList)] ++
    policyMembers e.policyId ++
    [(plain "event_type", (quote e.label.text).toList), (plain "event_data", raw),
      (plain "created_at", (quote e.createdAt.rfc3339).toList)]

theorem tells_eventMembers (e : Event) (raw : List Char) : Tells e raw (eventMembers e raw) :=
  .mk (signed?_toString e.id) (spellsNullable_quote? e.publicKey)
    (readsPolicy_policyMembers e.policyId) (spellsString_quote e.label.text)
    (spellsString_quote e.createdAt.rfc3339) (Instant.ofRfc3339?_rfc3339 e.createdAt)

theorem toList_text (e : Event) (data : String) :
    (Message.text { e with data }).toList =
      '{' :: '"' :: ("id".toList ++ '"' :: ':' :: ((toString e.id).toList ++ ',' ::
      '"' :: ("public_key".toList ++ '"' :: ':' :: ((quote? e.publicKey).toList ++ ',' ::
      ((Message.policyText e.policyId).toList ++
      '"' :: ("event_type".toList ++ '"' :: ':' :: ((quote e.label.text).toList ++ ',' ::
      '"' :: ("event_data".toList ++ '"' :: ':' :: (data.toList ++ ',' ::
      '"' :: ("created_at".toList ++ '"' :: ':' ::
        ((quote e.createdAt.rfc3339).toList ++ ['}']))))))))))) := by
  unfold Message.text
  simp only [String.toList_append, List.append_assoc]
  -- only the literals are left to evaluate
  generalize (toString e.id).toList = id, (quote? e.publicKey).toList = key,
    (Message.policyText e.policyId).toList = policy, (quote e.label.text).toList = label,
    data.toList = raw, (quote e.createdAt.rfc3339).toList = time
  simp

theorem objectText_text (e : Event) {data : String} {t : Tree} (hdata : ValueText data.toList t) :
    ObjectText (Message.text { e with data }).toList (eventMembers e data.toList) := by
  obtain ⟨_, hid⟩ := numberText_toString e.id
  obtain ⟨_, hkey⟩ := (spellsNullable_quote? e.publicKey).valueText
  obtain ⟨_, hlabel, -⟩ := spellsString_quote e.label.text
  obtain ⟨_, htime, -⟩ := spellsString_quote e.createdAt.rfc3339
  rw [toList_text]
  refine .members isBlanks_nil ?_
  refine memberTexts_more (by decide) (.number hid) ?_
  refine memberTexts_more (by decide) hkey ?_
  refine memberTexts_policy e.policyId ?_
  refine memberTexts_more (by decide) hlabel ?_
  refine memberTexts_more (by decide) hdata ?_
  exact memberTexts_last (by decide) htime

theorem objectText_envelope {type data : String} {t : Tree} (hdata : ValueText data.toList t) :
    ObjectText (Frame.envelope type data).toList
      [(plain "type", (quote type).toList), (plain "data", data.toList)] := by
  have htext : (Frame.envelope type data).toList =
      '{' :: '"' :: ("type".toList ++ '"' :: ':' :: ((quote type).toList ++ ',' ::
        '"' :: ("data".toList ++ '"' :: ':' :: (data.toList ++ ['}'])))) := by
    simp [Frame.envelope, String.toList_append]
  obtain ⟨_, htype, -⟩ := spellsString_quote type
  rw [htext]
  refine .members isBlanks_nil ?_
  exact memberTexts_more (by decide) htype (memberTexts_last (by decide) hdata)

/-! ### The frame -/

theorem frame_spec {e : Event} {frame : String} (h : e.frameText? = some frame) :
    ∃ data : String, PayloadText e.payload data.toList ∧
      ObjectText frame.toList [(plain "type", (quote "event").toList),
        (plain "data", (Message.text { e with data }).toList)] ∧
      ObjectText (Message.text { e with data }).toList (eventMembers e data.toList) := by
  obtain ⟨data, hdata, rfl⟩ := frameText?_eq_some_iff.mp h
  obtain ⟨t, ht⟩ := hdata.valueText
  have hmembers := objectText_text e ht
  obtain ⟨_, hobject⟩ := hmembers.valueText
  exact ⟨data, hdata, objectText_envelope hobject, hmembers⟩

/-- An event within a leap second, with a quote in its key and a line break in its label. -/
def leapEvent (payload : String) : Event where
  id := -7
  publicKey := some "a\"b"
  policyId := none
  label := .unrecognized "new\nkind"
  payload := payload.toUTF8
  createdAt := ⟨59, 1500000000, by decide⟩

end EventStream
