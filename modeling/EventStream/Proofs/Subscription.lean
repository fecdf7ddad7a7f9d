import Mathlib
import EventStream.Proofs.Json.Members
import EventStream.Proofs.Subscription.Alike

/-! Every text is answered by its first fault, and changes of spelling, of order and of members
that nothing looks at change no answer. -/

namespace EventStream

open Json

namespace Subscription

/-! ### Texts that ask alike -/

/-- Data with one member more that nothing looks at but its reader. -/
inductive Extended : Tree → Tree → Prop where
  | mk {front key name t v back} (hkey : text? key = some name)
      (hname : name ≠ "channel" ∧ name ≠ "last_seen")
      (hvalue : t.value? (Envelope.dataDepth - 1) = some v)
      (hfirst : isEmbedding (front ++ back) = false)
      (hfirst' : isEmbedding (front ++ (key, t) :: back) = false) :
      Extended (.object (front ++ back)) (.object (front ++ (key, t) :: back))

/-- Trees that ask the same: strings may be spelled in another way and members stand in another
order, the envelope and its data may have members that nothing looks at. -/
inductive Variant : Tree → Tree → Prop where
  | alike {t t'} (h : Alike t t') : Variant t t'
  | order {members members'} (h : members.Perm members') :
      Variant (.object members) (.object members')
  | extra {key name t members} (hkey : text? key = some name)
      (hname : name ≠ "type" ∧ name ≠ "data") :
      Variant (.object members) (.object ((key, t) :: members))
  | data {key t t' members} (hkey : text? key = some "data") (h : Extended t t') :
      Variant (.object ((key, t) :: members)) (.object ((key, t') :: members))
  | dataItem {type t t'} (h : Extended t t') :
      Variant (.array [type, t]) (.array [type, t'])
  | symm {t t'} (h : Variant t t') : Variant t' t
  | trans {t t' t''} (h : Variant t t') (h' : Variant t' t'') : Variant t t''

/-! ### What a tree asks -/

/-- What the data of an envelope request, if they can be read. -/
def dataRequest? (t : Tree) : Option (Option (String × Option Int)) :=
  (Envelope.data? t).map (· >>= fields?)

/-- The type of an envelope and what its data request. -/
def request? (t : Tree) : Option (String × Option (String × Option Int)) :=
  (Envelope.ofTree? t).map fun e => (e.type, e.data >>= fields?)

def partsRequest? (types datas : List Tree) : Option (String × Option (String × Option Int)) :=
  (Envelope.ofParts? types datas).map fun e => (e.type, e.data >>= fields?)

theorem dataRequest?_eq (t : Tree) :
    dataRequest? t = ((t.value? Envelope.dataDepth).map aspect).map (·.2) := by
  unfold dataRequest? Envelope.data?
  split
  · rfl
  · rw [Option.map_map, Option.map_map]
    rfl

theorem partsRequest?_singleton (t : Tree) :
    partsRequest? [t] [] = (Envelope.type? t).map (·, none) := by
  simp only [partsRequest?, Envelope.ofParts?]
  cases Envelope.type? t <;> rfl

theorem partsRequest?_pair (t d : Tree) :
    partsRequest? [t] [d] =
      (Envelope.type? t).bind fun type => (dataRequest? d).map (type, ·) := by
  simp only [partsRequest?, Envelope.ofParts?, dataRequest?]
  cases Envelope.type? t <;> cases Envelope.data? d <;> rfl

theorem partsRequest?_eq_none {types datas : List Tree}
    (h : ¬ (types.length ≤ 1 ∧ datas.length ≤ 1)) : partsRequest? types datas = none := by
  match types, datas with
  | [], _ | _ :: _ :: _, _ | [_], _ :: _ :: _ => simp [partsRequest?, Envelope.ofParts?]
  | [_], [] | [_], [_] => simp at h

theorem eq_of_perm {ts ts' : List Tree} (h : ts.Perm ts') (hlength : ts.length ≤ 1) :
    ts = ts' := by
  match ts with
  | [] => exact (List.nil_perm.mp h).symm
  | [t] => exact (List.perm_singleton.mp h.symm).symm
  | _ :: _ :: _ => simp at hlength

theorem partsRequest?_perm {types types' datas datas' : List Tree} (ht : types.Perm types')
    (hd : datas.Perm datas') : partsRequest? types datas = partsRequest? types' datas' := by
  by_cases h : types.length ≤ 1 ∧ datas.length ≤ 1
  · rw [eq_of_perm ht h.1, eq_of_perm hd h.2]
  · rw [partsRequest?_eq_none h, partsRequest?_eq_none (ht.length_eq ▸ hd.length_eq ▸ h)]

theorem dataRequest?_alike {t t' : Tree} (h : Alike t t') : dataRequest? t = dataRequest? t' := by
  rw [dataRequest?_eq, dataRequest?_eq, Tree.value?, Tree.value?, h.aspect_eq]

theorem partsRequest?_alike {types types' datas datas' : List Tree} (ht : AlikeItems types types')
    (hd : AlikeItems datas datas') : partsRequest? types datas = partsRequest? types' datas' := by
  cases ht with
  | nil => simp [partsRequest?, Envelope.ofParts?]
  | cons ht hmore =>
      cases hmore with
      | cons => simp [partsRequest?, Envelope.ofParts?]
      | nil =>
          cases hd with
          | nil => rw [partsRequest?_singleton, partsRequest?_singleton, ht.type?_eq]
          | cons hd hmore =>
              cases hmore with
              | nil =>
                  rw [partsRequest?_pair, partsRequest?_pair, ht.type?_eq, dataRequest?_alike hd]
              | cons => simp [partsRequest?, Envelope.ofParts?]

theorem partsRequest?_congr_data {d d' : Tree} (h : dataRequest? d = dataRequest? d')
    (types datas : List Tree) :
    partsRequest? types (d :: datas) = partsRequest? types (d' :: datas) := by
  match types, datas with
  | [t], [] => rw [partsRequest?_pair, partsRequest?_pair, h]
  | [], _ | _ :: _ :: _, _ | [_], _ :: _ => simp [partsRequest?, Envelope.ofParts?]

theorem request?_object {members : List (List Piece × Tree)} (h : HasNames members) :
    request? (.object members) =
      partsRequest? (under "type" members) (under "data" members) := by
  rw [request?, Envelope.ofTree?_object_eq h, partsRequest?]

theorem request?_object_eq_none {members : List (List Piece × Tree)} (h : ¬ HasNames members) :
    request? (.object members) = none := by
  rw [request?, Envelope.ofTree?_object_eq_none h, Option.map_none]

/-- Objects ask the same if their keys can be read alike and what stands under the keys that are
looked for asks the same. -/
theorem request?_congr {members members' : List (List Piece × Tree)}
    (hnames : HasNames members ↔ HasNames members')
    (hparts : partsRequest? (under "type" members) (under "data" members) =
      partsRequest? (under "type" members') (under "data" members')) :
    request? (.object members) = request? (.object members') := by
  by_cases h : HasNames members
  · rw [request?_object h, request?_object (hnames.mp h), hparts]
  · rw [request?_object_eq_none h, request?_object_eq_none fun h' => h (hnames.mpr h')]

/-! ### Variants ask the same -/

theorem hasNames_cons {key : List Piece} {name : String} {t : Tree}
    {members : List (List Piece × Tree)} (hkey : text? key = some name) :
    HasNames ((key, t) :: members) ↔ HasNames members := by
  simp [HasNames, hkey]

theorem text?_ne {key : List Piece} {name : String} (hkey : text? key = some name)
    (wanted : String) (hne : name ≠ wanted) : text? key ≠ some wanted := by
  rw [hkey]
  exact fun h => hne (Option.some.inj h)

theorem under_cons_of_ne {key : List Piece} {wanted : String} {t : Tree}
    {members : List (List Piece × Tree)} (hkey : text? key ≠ some wanted) :
    under wanted ((key, t) :: members) = under wanted members := by
  rw [under, List.filter_cons_of_neg (by simpa using hkey), under]

theorem under_cons_of_eq {key : List Piece} {name : String} {t : Tree}
    {members : List (List Piece × Tree)} (hkey : text? key = some name) :
    under name ((key, t) :: members) = t :: under name members := by
  rw [under, List.filter_cons_of_pos (by simp [hkey]), List.map_cons, under]

theorem request?_perm {members members' : List (List Piece × Tree)} (h : members.Perm members') :
    request? (.object members) = request? (.object members') := by
  refine request?_congr ?_ ?_
  · simp only [HasNames, h.mem_iff]
  · exact partsRequest?_perm ((h.filter _).map _) ((h.filter _).map _)

theorem hasNames_iff_of_alike {members members' : List (List Piece × Tree)}
    (h : AlikeMembers members members') : HasNames members ↔ HasNames members' := by
  cases h with
  | nil => exact Iff.rfl
  | cons hkey _ hrest =>
      simp only [HasNames, List.forall_mem_cons, hkey]
      exact and_congr_right fun _ => hasNames_iff_of_alike hrest

theorem alikeItems_under {members members' : List (List Piece × Tree)}
    (h : AlikeMembers members members') (key : String) :
    AlikeItems (under key members) (under key members') := by
  cases h with
  | nil => exact .nil
  | @cons key₁ _ _ _ _ _ hkey h hrest =>
      by_cases hk : text? key₁ = some key
      · rw [under_cons_of_eq hk, under_cons_of_eq (hkey ▸ hk)]
        exact .cons h (alikeItems_under hrest key)
      · rw [under_cons_of_ne hk, under_cons_of_ne (hkey ▸ hk)]
        exact alikeItems_under hrest key

theorem request?_alike {t t' : Tree} (h : Alike t t') : request? t = request? t' :=
  match h with
  | .trans h h' => (request?_alike h).trans (request?_alike h')
  | .refl | .string _ => rfl
  | .array h => by
      match h with
      | .nil => rfl
      | .cons ht .nil => exact partsRequest?_alike (.cons ht .nil) .nil
      | .cons ht (.cons hd .nil) => exact partsRequest?_alike (.cons ht .nil) (.cons hd .nil)
      | .cons _ (.cons _ (.cons _ _)) => rfl
  | .object h =>
      request?_congr (hasNames_iff_of_alike h)
        (partsRequest?_alike (alikeItems_under h "type") (alikeItems_under h "data"))
  | .reordered h _ _ => request?_perm h.1

theorem dataRequest?_extended {t t' : Tree} (h : Extended t t') :
    dataRequest? t = dataRequest? t' := by
  obtain ⟨hkey, hname, hvalue, hfirst, hfirst'⟩ := h
  rw [dataRequest?_eq, dataRequest?_eq]
  refine congrArg _ (aspect_congr (Envelope.dataDepth - 1) hfirst hfirst' ?_ ?_)
  · rw [exists_memberValues?_iff, exists_memberValues?_iff]
    simp only [List.forall_mem_append, List.forall_mem_cons]
    exact ⟨fun h => ⟨h.1, ⟨⟨_, hkey⟩, _, hvalue⟩, h.2⟩, fun h => ⟨h.1, h.2.2⟩⟩
  · intro wanted hwanted
    have hne := text?_ne hkey wanted (by
      rintro rfl
      simp only [List.mem_cons, List.not_mem_nil, or_false] at hwanted
      exact hwanted.elim hname.1 hname.2)
    rw [List.filter_append, List.filter_append, List.filter_cons_of_neg (by simpa using hne)]

theorem Variant.request?_eq {t t' : Tree} (h : Variant t t') : request? t = request? t' := by
  induction h with
  | alike h => exact request?_alike h
  | order h => exact request?_perm h
  | extra hkey hname =>
      refine request?_congr (hasNames_cons hkey).symm ?_
      rw [under_cons_of_ne (text?_ne hkey _ hname.1), under_cons_of_ne (text?_ne hkey _ hname.2)]
  | data hkey h =>
      refine request?_congr ((hasNames_cons hkey).trans (hasNames_cons hkey).symm) ?_
      have htype := text?_ne hkey "type" (by decide)
      rw [under_cons_of_ne htype, under_cons_of_ne htype, under_cons_of_eq hkey,
        under_cons_of_eq hkey]
      exact partsRequest?_congr_data (dataRequest?_extended h) _ _
  | dataItem h => exact partsRequest?_congr_data (dataRequest?_extended h) [_] []
  | symm _ ih => exact ih.symm
  | trans _ _ ih ih' => exact ih.trans ih'

/-! ### Answers -/

theorem decode_of_document {text : String} {t : Tree} (h : DocumentText text.toList t) :
    decode text =
      match request? t with
      | none => .error .invalidMessage
      | some (type, request) => answer type request := by
  rw [decode_eq, document?_eq_some_iff.mpr h, request?]
  simp only [Option.bind_eq_bind, Option.bind_some]
  cases Envelope.ofTree? t <;> rfl

theorem decode_of_envelope {text : String} {t : Tree} {type : String} {data : Option Value}
    (h : DocumentText text.toList t) (henvelope : IsEnvelope t type data) :
    decode text = answer type (data >>= fields?) := by
  rw [decode_of_document h, request?, Envelope.ofTree?_eq_some_iff.mpr henvelope]
  rfl

/-- Texts that are no envelope are refused as such; all others are answered. -/
theorem decode_eq_or (text : String) :
    (decode text = .error .invalidMessage ∧
      ¬ ∃ t type data, DocumentText text.toList t ∧ IsEnvelope t type data) ∨
    ∃ t type data, DocumentText text.toList t ∧ IsEnvelope t type data ∧
      decode text = answer type (data >>= fields?) := by
  cases h : document? text.toList >>= Envelope.ofTree? with
  | none =>
      refine .inl ⟨by rw [decode_eq, h], ?_⟩
      rintro ⟨t, type, data, htext, henvelope⟩
      simp only [document?_eq_some_iff.mpr htext, Option.bind_eq_bind, Option.bind_some,
        Envelope.ofTree?_eq_some_iff.mpr henvelope] at h
      cases h
  | some e =>
      obtain ⟨t, ht, he⟩ := Option.bind_eq_some_iff.mp h
      obtain ⟨type, data⟩ := e
      exact .inr ⟨t, type, data, document?_eq_some_iff.mp ht, Envelope.ofTree?_eq_some_iff.mp he,
        by rw [decode_eq, h]⟩

theorem decode_eq_invalidMessage_iff (text : String) :
    decode text = .error .invalidMessage ↔
      ¬ ∃ t type data, DocumentText text.toList t ∧ IsEnvelope t type data := by
  constructor
  · intro h
    rcases decode_eq_or text with ⟨-, hnone⟩ | ⟨t, type, data, -, -, hanswer⟩
    · exact hnone
    · have hanswers := answers_answer type (data >>= fields?)
      rw [← hanswer, h] at hanswers
      cases hanswers
  · intro h
    rcases decode_eq_or text with ⟨hrefused, -⟩ | ⟨t, type, data, ht, henvelope, -⟩
    · exact hrefused
    · exact absurd ⟨t, type, data, ht, henvelope⟩ h

theorem decode_eq_iff (text : String) {r : Except Refusal Subscription}
    (hr : r ≠ .error .invalidMessage) :
    decode text = r ↔ ∃ t type data, DocumentText text.toList t ∧ IsEnvelope t type data ∧
      Answers type (data >>= fields?) r := by
  constructor
  · rintro rfl
    rcases decode_eq_or text with ⟨hrefused, -⟩ | ⟨t, type, data, ht, henvelope, hanswer⟩
    · exact absurd hrefused hr
    · exact ⟨t, type, data, ht, henvelope, hanswer ▸ answers_answer type (data >>= fields?)⟩
  · rintro ⟨t, type, data, ht, henvelope, h⟩
    rw [decode_of_envelope ht henvelope, h.eq_answer]

theorem bind_fields?_eq_some_iff {data : Option Value} {channel : String} {cursor : Option Int} :
    data >>= fields? = some (channel, cursor) ↔
      ∃ v, data = some v ∧ IsRequest v channel cursor := by
  simp only [Option.bind_eq_bind, Option.bind_eq_some_iff, fields?_eq_some_iff]

theorem decode_eq_unknownType_iff (text type : String) :
    decode text = .error (.unknownType type) ↔
      type ≠ "subscribe" ∧ ∃ t data, DocumentText text.toList t ∧ IsEnvelope t type data := by
  rw [decode_eq_iff text (by simp)]
  constructor
  · rintro ⟨t, _, data, ht, henvelope, h⟩
    cases h with
    | unknownType htype => exact ⟨htype, t, data, ht, henvelope⟩
  · rintro ⟨htype, t, data, ht, henvelope⟩
    exact ⟨t, type, data, ht, henvelope, .unknownType htype⟩

theorem decode_eq_invalidSubscription_iff (text : String) :
    decode text = .error .invalidSubscription ↔
      ∃ t data, DocumentText text.toList t ∧ IsEnvelope t "subscribe" data ∧
        ¬ ∃ v channel cursor, data = some v ∧ IsRequest v channel cursor ∧ InRange cursor := by
  rw [decode_eq_iff text (by simp)]
  constructor
  · rintro ⟨t, type, data, ht, henvelope, h⟩
    cases h with
    | invalidSubscription htype hrequest =>
        refine ⟨t, data, ht, htype ▸ henvelope, ?_⟩
        rintro ⟨v, channel, cursor, hdata, hv, hrange⟩
        exact hrequest ⟨channel, cursor, bind_fields?_eq_some_iff.mpr ⟨v, hdata, hv⟩, hrange⟩
  · rintro ⟨t, data, ht, henvelope, hrequest⟩
    refine ⟨t, _, data, ht, henvelope, .invalidSubscription rfl ?_⟩
    rintro ⟨channel, cursor, hdata, hrange⟩
    obtain ⟨v, hdata, hv⟩ := bind_fields?_eq_some_iff.mp hdata
    exact hrequest ⟨v, channel, cursor, hdata, hv, hrange⟩

theorem decode_eq_unknownChannel_iff (text channel : String) :
    decode text = .error (.unknownChannel channel) ↔
      channel ≠ "system_events" ∧ ∃ t v cursor, DocumentText text.toList t ∧
        IsEnvelope t "subscribe" (some v) ∧ IsRequest v channel cursor ∧ InRange cursor := by
  rw [decode_eq_iff text (by simp)]
  constructor
  · rintro ⟨t, type, data, ht, henvelope, h⟩
    cases h with
    | unknownChannel htype hrequest hrange hname =>
        obtain ⟨v, rfl, hv⟩ := bind_fields?_eq_some_iff.mp hrequest
        exact ⟨hname, t, v, _, ht, htype ▸ henvelope, hv, hrange⟩
  · rintro ⟨hname, t, v, cursor, ht, henvelope, hv, hrange⟩
    exact ⟨t, _, some v, ht, henvelope,
      .unknownChannel rfl (bind_fields?_eq_some_iff.mpr ⟨v, rfl, hv⟩) hrange hname⟩

theorem decode_eq_ok_iff (text : String) (s : Subscription) :
    decode text = .ok s ↔
      s.channel = .systemEvents ∧ ∃ t v cursor, DocumentText text.toList t ∧
        IsEnvelope t "subscribe" (some v) ∧ IsRequest v "system_events" cursor ∧
        IsInstant cursor s.lastSeen := by
  rw [decode_eq_iff text (by simp)]
  constructor
  · rintro ⟨t, type, data, ht, henvelope, h⟩
    cases h with
    | ok htype hrequest hinstant =>
        obtain ⟨v, rfl, hv⟩ := bind_fields?_eq_some_iff.mp hrequest
        exact ⟨rfl, t, v, _, ht, htype ▸ henvelope, hv, hinstant⟩
  · rintro ⟨hchannel, t, v, cursor, ht, henvelope, hv, hinstant⟩
    obtain ⟨channel, lastSeen⟩ := s
    cases hchannel
    exact ⟨t, _, some v, ht, henvelope,
      .ok rfl (bind_fields?_eq_some_iff.mpr ⟨v, rfl, hv⟩) hinstant⟩

/-- Every text is answered by its first fault: it is no envelope, or its type is not served, or
its data are no request or its cursor is out of range, or there is no such channel. A text
without a fault is a request from its very millisecond on. Texts that spell strings in another
way, have blanks elsewhere, order members in another way or have members that nothing looks at
are answered alike. -/
theorem decode_exact (text : String) :
    (decode text = .error .invalidMessage ↔
      ¬ ∃ t type data, DocumentText text.toList t ∧ IsEnvelope t type data) ∧
    (∀ type, decode text = .error (.unknownType type) ↔
      type ≠ "subscribe" ∧ ∃ t data, DocumentText text.toList t ∧ IsEnvelope t type data) ∧
    (decode text = .error .invalidSubscription ↔
      ∃ t data, DocumentText text.toList t ∧ IsEnvelope t "subscribe" data ∧
        ¬ ∃ v channel cursor, data = some v ∧ IsRequest v channel cursor ∧ InRange cursor) ∧
    (∀ channel, decode text = .error (.unknownChannel channel) ↔
      channel ≠ "system_events" ∧ ∃ t v cursor, DocumentText text.toList t ∧
        IsEnvelope t "subscribe" (some v) ∧ IsRequest v channel cursor ∧ InRange cursor) ∧
    (∀ s, decode text = .ok s ↔
      s.channel = .systemEvents ∧ ∃ t v cursor, DocumentText text.toList t ∧
        IsEnvelope t "subscribe" (some v) ∧ IsRequest v "system_events" cursor ∧
        IsInstant cursor s.lastSeen) ∧
    (∀ (text' : String) (t t' : Tree), DocumentText text.toList t → DocumentText text'.toList t' →
      Variant t t' → decode text' = decode text) := by
  refine ⟨decode_eq_invalidMessage_iff text, decode_eq_unknownType_iff text,
    decode_eq_invalidSubscription_iff text, decode_eq_unknownChannel_iff text,
    decode_eq_ok_iff text, fun text' t t' ht ht' h => ?_⟩
  rw [decode_of_document ht', decode_of_document ht, h.request?_eq]

deriving instance DecidableEq for Except

/-- Blanks, an escape, another order and one member more, which is not even a double. -/
theorem decode_exact_of_respelled :
    decode ("\x7b\n\"x\": 1e999, \"data\": [\"system_events\", 5], " ++
        "\"type\": \"sub\\u0073cribe\" \x7d") =
      decode "\x7b\"type\":\"subscribe\",\"data\":[\"system_events\",5]\x7d" := by
  have hread : document? "\x7b\"type\":\"subscribe\",\"data\":[\"system_events\",5]\x7d".toList =
      some (.object [(plain "type", .string (plain "subscribe")),
        (plain "data",
          .array [.string (plain "system_events"), .number ⟨false, ['5'], [], none⟩])]) := by
    cbv
  have hread' : document? ("\x7b\n\"x\": 1e999, \"data\": [\"system_events\", 5], " ++
      "\"type\": \"sub\\u0073cribe\" \x7d").toList =
      some (.object [(plain "x", .number ⟨false, ['1'], [], some 999⟩),
        (plain "data", .array [.string (plain "system_events"), .number ⟨false, ['5'], [], none⟩]),
        (plain "type", .string (plain "sub" ++ .unit 0x73 :: plain "cribe"))]) := by
    cbv
  have hspelled :
      text? (plain "subscribe") = text? (plain "sub" ++ .unit 0x73 :: plain "cribe") := by
    decide
  have hextra : text? (plain "x") = some "x" := by decide
  refine (decode_exact _).2.2.2.2.2 _ _ _ (document?_eq_some_iff.mp hread)
    (document?_eq_some_iff.mp hread') ?_
  refine .trans (.alike (.object (.cons rfl (.string hspelled) (.cons rfl .refl .nil)))) ?_
  exact .trans (.order (.swap _ _ _)) (.extra hextra (by decide))

/-- Of two members of one key the later counts, a number that is no double makes data
unreadable, and so does a first member of the key that embeds a document. -/
theorem decode_depends_on_members :
    (decode ("\x7b\"type\":\"subscribe\",\"data\":" ++
          "\x7b\"channel\":\"a\",\"channel\":\"system_events\"\x7d\x7d") =
        .ok { channel := .systemEvents } ∧
      decode ("\x7b\"type\":\"subscribe\",\"data\":" ++
          "\x7b\"channel\":\"system_events\",\"channel\":\"a\"\x7d\x7d") =
        .error (.unknownChannel "a")) ∧
    (decode "\x7b\"type\":\"subscribe\",\"data\":\x7b\"channel\":\"system_events\"\x7d\x7d" =
        .ok { channel := .systemEvents } ∧
      decode ("\x7b\"type\":\"subscribe\",\"data\":" ++
          "\x7b\"channel\":\"system_events\",\"x\":1e999\x7d\x7d") = .error .invalidMessage ∧
      decode ("\x7b\"type\":\"subscribe\",\"data\":" ++
          "\x7b\"$serde_json::private::RawValue\":\"x\",\"channel\":\"system_events\"\x7d\x7d") =
        .error .invalidMessage) := by
  decide +kernel

end Subscription

end EventStream
