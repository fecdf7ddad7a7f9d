import EventStream.Subscription

/-! Which trees are envelopes, and of what type and data. -/

namespace EventStream

open Json

namespace Json

/-- The trees under a key, in the order written. -/
def under (key : String) (members : List (List Piece × Tree)) : List Tree :=
  (members.filter fun m => text? m.1 = some key).map (·.2)

/-- Every key can be read. -/
def HasNames (members : List (List Piece × Tree)) : Prop :=
  ∀ m ∈ members, ∃ name, text? m.1 = some name

end Json

namespace Subscription

/-- The data of an envelope; `null` stands for none. -/
inductive IsData : Tree → Option Value → Prop where
  | null : IsData .null none
  | value {t v} (hnull : t ≠ .null) (h : t.value? Envelope.dataDepth = some v) :
      IsData t (some v)

/-- An envelope is an object with one member `type`, a string, and at most one member `data`,
or an array of a type and data. Other members of the object may hold anything. -/
inductive IsEnvelope : Tree → String → Option Value → Prop where
  | bare {members pieces type} (hnames : HasNames members)
      (htype : under "type" members = [.string pieces]) (hread : text? pieces = some type)
      (hdata : under "data" members = []) : IsEnvelope (.object members) type none
  | object {members pieces type t data} (hnames : HasNames members)
      (htype : under "type" members = [.string pieces]) (hread : text? pieces = some type)
      (hdata : under "data" members = [t]) (h : IsData t data) :
      IsEnvelope (.object members) type data
  | bareArray {pieces type} (hread : text? pieces = some type) :
      IsEnvelope (.array [.string pieces]) type none
  | array {pieces type t data} (hread : text? pieces = some type) (h : IsData t data) :
      IsEnvelope (.array [.string pieces, t]) type data

namespace Envelope

/-! ### Members by their keys -/

theorem keyed?_isSome_iff {members : List (List Piece × Tree)} :
    (∃ keyed, keyed? members = some keyed) ↔ HasNames members := by
  induction members with
  | nil => exact ⟨fun _ _ h => (nomatch h), fun _ => ⟨[], rfl⟩⟩
  | cons m members ih =>
      obtain ⟨key, t⟩ := m
      simp only [keyed?, Option.bind_eq_bind, Option.bind_eq_some_iff, Option.pure_def,
        Option.some.injEq, HasNames, List.forall_mem_cons]
      rw [← HasNames.eq_1, ← ih]
      constructor
      · rintro ⟨_, name, hname, rest, hrest, -⟩
        exact ⟨⟨name, hname⟩, rest, hrest⟩
      · rintro ⟨⟨name, hname⟩, rest, hrest⟩
        exact ⟨_, name, hname, rest, hrest, rfl⟩

theorem under_of_keyed? {members : List (List Piece × Tree)} {keyed : List (String × Tree)}
    (h : keyed? members = some keyed) (key : String) :
    (keyed.filter (·.1 = key)).map (·.2) = under key members := by
  induction members generalizing keyed with
  | nil => cases h; rfl
  | cons m members ih =>
      obtain ⟨pieces, t⟩ := m
      simp only [keyed?, Option.bind_eq_bind, Option.bind_eq_some_iff, Option.pure_def,
        Option.some.injEq] at h
      obtain ⟨name, hname, rest, hrest, rfl⟩ := h
      have hrest := ih hrest
      rw [under] at hrest ⊢
      by_cases hkey : name = key
      · rw [List.filter_cons_of_pos (by simpa using hkey),
          List.filter_cons_of_pos (by simpa [hname] using hkey), List.map_cons, List.map_cons,
          hrest]
      · rw [List.filter_cons_of_neg (by simpa using hkey),
          List.filter_cons_of_neg (by simpa [hname] using hkey), hrest]

theorem single?_of_keyed? {members : List (List Piece × Tree)} {keyed : List (String × Tree)}
    (h : keyed? members = some keyed) (key : String) :
    single? key keyed =
      match under key members with
      | [] => some none
      | [t] => some (some t)
      | _ => none := by
  rw [← under_of_keyed? h, single?]
  generalize keyed.filter (·.1 = key) = found
  match found with
  | [] | [_] | _ :: _ :: _ => rfl

/-- The envelope of the trees under `type` and `data`. -/
def ofParts? : List Tree → List Tree → Option Envelope
  | [t], [] => do return { type := ← type? t, data := none }
  | [t], [d] => do return { type := ← type? t, data := ← data? d }
  | _, _ => none

theorem ofTree?_object_eq {members : List (List Piece × Tree)} (h : HasNames members) :
    ofTree? (.object members) = ofParts? (under "type" members) (under "data" members) := by
  obtain ⟨keyed, hkeyed⟩ := keyed?_isSome_iff.mpr h
  simp only [ofTree?, hkeyed, Option.bind_eq_bind, Option.bind_some, single?_of_keyed? hkeyed]
  generalize under "type" members = types, under "data" members = datas
  match types, datas with
  | [], _ => rfl
  | _ :: _ :: _, _ => rfl
  | [_], [] => rfl
  | [_], [_] => rfl
  | [_], _ :: _ :: _ => simp [ofParts?]

theorem ofTree?_object_eq_none {members : List (List Piece × Tree)} (h : ¬ HasNames members) :
    ofTree? (.object members) = none := by
  cases hkeyed : keyed? members with
  | none => simp only [ofTree?, hkeyed, Option.bind_eq_bind, Option.bind_none]
  | some keyed => exact absurd (keyed?_isSome_iff.mp ⟨keyed, hkeyed⟩) h

/-! ### The envelopes -/

theorem type?_eq_some_iff {t : Tree} {type : String} :
    type? t = some type ↔ ∃ pieces, t = .string pieces ∧ text? pieces = some type := by
  cases t <;> simp [type?]

theorem data?_eq_some_iff {t : Tree} {data : Option Value} :
    data? t = some data ↔ IsData t data := by
  constructor
  · intro h
    unfold data? at h
    split at h
    · cases h
      exact .null
    · next hnull =>
      obtain ⟨v, hv, rfl⟩ := Option.map_eq_some_iff.mp h
      exact .value hnull hv
  · intro h
    cases h with
    | null => rfl
    | value hnull hv => rw [data?.eq_2 _ hnull, hv, Option.map_some]

theorem ofParts?_eq_some_iff (types datas : List Tree) {type : String} {data : Option Value} :
    ofParts? types datas = some { type, data } ↔ ∃ pieces, types = [.string pieces] ∧
      text? pieces = some type ∧
      (datas = [] ∧ data = none ∨ ∃ t, datas = [t] ∧ IsData t data) := by
  match types, datas with
  | [], _ => simp [ofParts?]
  | _ :: _ :: _, _ => simp [ofParts?]
  | [t], [] =>
    simp only [ofParts?, Option.bind_eq_bind, Option.bind_eq_some_iff, type?_eq_some_iff,
      Option.pure_def, Option.some.injEq, Envelope.mk.injEq]
    constructor
    · rintro ⟨_, ⟨pieces, rfl, hread⟩, rfl, rfl⟩
      exact ⟨pieces, rfl, hread, .inl ⟨trivial, rfl⟩⟩
    · rintro ⟨pieces, ht, hread, ⟨-, rfl⟩ | ⟨_, hd, -⟩⟩
      · exact ⟨_, ⟨pieces, (List.cons.inj ht).1, hread⟩, rfl, rfl⟩
      · cases hd
  | [t], [d] =>
    simp only [ofParts?, Option.bind_eq_bind, Option.bind_eq_some_iff, type?_eq_some_iff,
      data?_eq_some_iff, Option.pure_def, Option.some.injEq, Envelope.mk.injEq]
    constructor
    · rintro ⟨_, ⟨pieces, rfl, hread⟩, _, hdata, rfl, rfl⟩
      exact ⟨pieces, rfl, hread, .inr ⟨d, rfl, hdata⟩⟩
    · rintro ⟨pieces, ht, hread, ⟨hd, -⟩ | ⟨_, hd, hdata⟩⟩
      · cases hd
      · cases hd
        exact ⟨_, ⟨pieces, (List.cons.inj ht).1, hread⟩, _, hdata, rfl, rfl⟩
  | [_], _ :: _ :: _ => simp [ofParts?]

theorem ofTree?_eq_some_iff {t : Tree} {type : String} {data : Option Value} :
    ofTree? t = some { type, data } ↔ IsEnvelope t type data := by
  constructor
  · intro h
    match t with
    | .object members =>
      by_cases hnames : HasNames members
      · rw [ofTree?_object_eq hnames] at h
        obtain ⟨pieces, htype, hread, ⟨hdata, rfl⟩ | ⟨d, hdata, h⟩⟩ :=
          (ofParts?_eq_some_iff _ _).mp h
        · exact .bare hnames htype hread hdata
        · exact .object hnames htype hread hdata h
      · rw [ofTree?_object_eq_none hnames] at h
        cases h
    | .array [t] =>
      obtain ⟨pieces, ht, hread, ⟨-, rfl⟩ | ⟨_, hd, -⟩⟩ :=
        (ofParts?_eq_some_iff [t] []).mp h
      · cases ht
        exact .bareArray hread
      · cases hd
    | .array [t, d] =>
      obtain ⟨pieces, ht, hread, ⟨hd, -⟩ | ⟨_, hd, h⟩⟩ :=
        (ofParts?_eq_some_iff [t] [d]).mp h
      · cases hd
      · cases ht
        cases hd
        exact .array hread h
    | .array [] | .array (_ :: _ :: _ :: _) | .null | .bool _ | .number _ | .string _ => cases h
  · intro h
    cases h with
    | bare hnames htype hread hdata =>
        rw [ofTree?_object_eq hnames]
        exact (ofParts?_eq_some_iff _ _).mpr ⟨_, htype, hread, .inl ⟨hdata, rfl⟩⟩
    | object hnames htype hread hdata h =>
        rw [ofTree?_object_eq hnames]
        exact (ofParts?_eq_some_iff _ _).mpr ⟨_, htype, hread, .inr ⟨_, hdata, h⟩⟩
    | bareArray hread =>
        exact (ofParts?_eq_some_iff _ []).mpr ⟨_, rfl, hread, .inl ⟨rfl, rfl⟩⟩
    | array hread h =>
        exact (ofParts?_eq_some_iff _ [_]).mpr ⟨_, rfl, hread, .inr ⟨_, rfl, h⟩⟩

end Envelope

end Subscription

end EventStream
