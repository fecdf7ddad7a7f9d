import EventStream.Proofs.Subscription.Request

/-! Trees that mean alike: how strings are spelled and the order of members change nothing that
a request shows. -/

namespace EventStream

open Json

namespace Json

/-! ### Trees that mean alike -/

/-- The same members in another order, in which members of one key keep theirs. -/
def Reordered (members members' : List (List Piece × Tree)) : Prop :=
  members.Perm members' ∧ ∀ name, members.filter (fun m => text? m.1 = some name) =
    members'.filter (fun m => text? m.1 = some name)

mutual

/-- Trees that differ in how strings are spelled and in the order of members. Where a document
is embedded, the member that says so stays first. -/
inductive Alike : Tree → Tree → Prop where
  | refl {t} : Alike t t
  | string {pieces pieces'} (h : text? pieces = text? pieces') :
      Alike (.string pieces) (.string pieces')
  | array {items items'} (h : AlikeItems items items') : Alike (.array items) (.array items')
  | object {members members'} (h : AlikeMembers members members') :
      Alike (.object members) (.object members')
  | reordered {members members'} (h : Reordered members members')
      (hfirst : isEmbedding members = false) (hfirst' : isEmbedding members' = false) :
      Alike (.object members) (.object members')
  | trans {t t' t''} (h : Alike t t') (h' : Alike t' t'') : Alike t t''

inductive AlikeItems : List Tree → List Tree → Prop where
  | nil : AlikeItems [] []
  | cons {t t' items items'} (h : Alike t t') (hrest : AlikeItems items items') :
      AlikeItems (t :: items) (t' :: items')

inductive AlikeMembers : List (List Piece × Tree) → List (List Piece × Tree) → Prop where
  | nil : AlikeMembers [] []
  | cons {key key' t t' members members'} (hkey : text? key = text? key') (h : Alike t t')
      (hrest : AlikeMembers members members') :
      AlikeMembers ((key, t) :: members) ((key', t') :: members')

end

/-! ### Members that are read -/

section

variable {embedded? : String → Option Value} {depth : Nat}

theorem exists_memberValues?_iff {members : List (List Piece × Tree)} :
    (∃ values, Tree.memberValues? embedded? depth members = some values) ↔
      ∀ m ∈ members, (∃ name, text? m.1 = some name) ∧
        ∃ v, m.2.valueWith? embedded? depth = some v := by
  induction members with
  | nil => exact ⟨fun _ _ h => (nomatch h), fun _ => ⟨[], rfl⟩⟩
  | cons m members ih =>
      obtain ⟨key, t⟩ := m
      simp only [Tree.memberValues?, Option.bind_eq_bind, Option.bind_eq_some_iff, Option.pure_def,
        Option.some.injEq, List.forall_mem_cons]
      rw [← ih]
      constructor
      · rintro ⟨_, name, hname, v, hv, rest, hrest, -⟩
        exact ⟨⟨⟨name, hname⟩, v, hv⟩, rest, hrest⟩
      · rintro ⟨⟨⟨name, hname⟩, v, hv⟩, rest, hrest⟩
        exact ⟨_, name, hname, v, hv, rest, hrest, rfl⟩

theorem memberValues?_filter {members : List (List Piece × Tree)}
    {values : List (String × Value)}
    (h : Tree.memberValues? embedded? depth members = some values) (key : String) :
    Tree.memberValues? embedded? depth (members.filter fun m => text? m.1 = some key) =
      some (values.filter (·.1 = key)) := by
  induction members generalizing values with
  | nil => cases h; rfl
  | cons m members ih =>
      obtain ⟨pieces, t⟩ := m
      simp only [Tree.memberValues?, Option.bind_eq_bind, Option.bind_eq_some_iff, Option.pure_def,
        Option.some.injEq] at h
      obtain ⟨name, hname, v, hv, rest, hrest, rfl⟩ := h
      by_cases hkey : name = key
      · rw [List.filter_cons_of_pos (by simpa [hname] using hkey),
          List.filter_cons_of_pos (by simpa using hkey), Tree.memberValues?, hname, hv, ih hrest]
        rfl
      · rw [List.filter_cons_of_neg (by simpa [hname] using hkey),
          List.filter_cons_of_neg (by simpa using hkey), ih hrest]

theorem member?_filter (key : String) (values : List (String × Value)) :
    member? key (values.filter (·.1 = key)) = member? key values := by
  simp [member?, ← List.filter_reverse]

/-- The last member of a key depends on the members of that key only. -/
theorem member?_congr {members members' : List (List Piece × Tree)}
    {values values' : List (String × Value)}
    (h : Tree.memberValues? embedded? depth members = some values)
    (h' : Tree.memberValues? embedded? depth members' = some values') {key : String}
    (hkey : members.filter (fun m => text? m.1 = some key) =
      members'.filter fun m => text? m.1 = some key) :
    member? key values = member? key values' := by
  have hvalues := memberValues?_filter h key
  rw [hkey, memberValues?_filter h' key] at hvalues
  rw [← member?_filter, ← Option.some.inj hvalues, member?_filter]

theorem valueWith?_object {members : List (List Piece × Tree)} (h : isEmbedding members = false) :
    (Tree.object members).valueWith? embedded? (depth + 1) =
      (Tree.memberValues? embedded? depth members).map .object := by
  simp only [Tree.valueWith?, h]
  rfl

end

end Json

namespace Subscription

/-! ### What a request sees of a value -/

/-- What a value is where a channel or a cursor is looked for. -/
inductive Sight where
  | null
  | integer (ms : Int)
  | string (s : String)
  | other

def sight : Value → Sight
  | .null => .null
  | .integer ms => .integer ms
  | .string s => .string s
  | _ => .other

/-- The request of a channel and a cursor. -/
def requestOf? : Option Sight → Option Sight → Option (String × Option Int)
  | some (.string channel), none => some (channel, none)
  | some (.string channel), some .null => some (channel, none)
  | some (.string channel), some (.integer ms) => some (channel, some ms)
  | _, _ => none

/-- The request of an array's items. -/
def itemsRequest? : List Sight → Option (String × Option Int)
  | [channel] => requestOf? (some channel) none
  | [channel, cursor] => requestOf? (some channel) (some cursor)
  | _ => none

/-- The request of an object's members. -/
def membersRequest? (members : List (String × Sight)) : Option (String × Option Int) :=
  let last (key : String) : Option Sight := (members.reverse.find? (·.1 = key)).map (·.2)
  requestOf? (last "channel") (last "last_seen")

/-- All that is asked about a value: what it is, and what it requests. -/
def aspect (v : Value) : Sight × Option (String × Option Int) := (sight v, fields? v)

theorem aspect_array (items : List Value) :
    aspect (.array items) = (.other, itemsRequest? (items.map sight)) := by
  refine Prod.ext rfl ?_
  match items with
  | [] => rfl
  | c :: _ :: _ :: _ => cases c <;> rfl
  | [c] => cases c <;> rfl
  | [c, v] => cases c <;> cases v <;> rfl

theorem requestOf?_member? (members : List (String × Value)) :
    fields? (.object members) = requestOf? ((member? "channel" members).map sight)
      ((member? "last_seen" members).map sight) := by
  simp only [fields?]
  cases member? "channel" members with
  | none => rfl
  | some c =>
      cases member? "last_seen" members with
      | none => cases c <;> rfl
      | some v => cases c <;> cases v <;> rfl

theorem aspect_object (members : List (String × Value)) :
    aspect (.object members) =
      (.other, membersRequest? (members.map fun m => (m.1, sight m.2))) := by
  refine Prod.ext rfl ?_
  change fields? (.object members) = membersRequest? _
  have hlast : ∀ key, (member? key members).map sight =
      (((members.map fun m => (m.1, sight m.2)).reverse.find? (·.1 = key)).map (·.2)) := by
    intro key
    rw [← List.map_reverse, List.find?_map, Option.map_map, member?, Option.map_map]
    rfl
  rw [requestOf?_member?, hlast, hlast, membersRequest?]

end Subscription

namespace Json

open Subscription

/-! ### Alike trees have one aspect -/

theorem Alike.type?_eq {t t' : Tree} (h : Alike t t') : Envelope.type? t = Envelope.type? t' :=
  match h with
  | .refl | .array _ | .object _ | .reordered .. => rfl
  | .string h => h
  | .trans h h' => h.type?_eq.trans h'.type?_eq

theorem AlikeMembers.isEmbedding_eq {members members' : List (List Piece × Tree)}
    (h : AlikeMembers members members') : isEmbedding members = isEmbedding members' := by
  cases h with
  | nil => rfl
  | cons hkey => simp only [isEmbedding, hkey]

theorem embeddedText?_singleton (key : List Piece) (t : Tree) :
    embeddedText? [(key, t)] = Envelope.type? t := by
  cases t <;> rfl

theorem embeddedText?_cons_cons (m m' : List Piece × Tree) (members : List (List Piece × Tree)) :
    embeddedText? (m :: m' :: members) = none := by
  obtain ⟨key, t⟩ := m
  cases t <;> rfl

theorem AlikeMembers.embeddedText?_eq {members members' : List (List Piece × Tree)}
    (h : AlikeMembers members members') : embeddedText? members = embeddedText? members' := by
  cases h with
  | nil => rfl
  | cons hkey h hrest =>
      cases hrest with
      | nil => rw [embeddedText?_singleton, embeddedText?_singleton, h.type?_eq]
      | cons => rw [embeddedText?_cons_cons, embeddedText?_cons_cons]

section

variable {embedded? : String → Option Value}

/-- What the items show, if they can be read. -/
def itemSights? (embedded? : String → Option Value) (depth : Nat) (items : List Tree) :
    Option (List Sight) :=
  (Tree.itemValues? embedded? depth items).map (·.map sight)

/-- What the members show, if they can be read. -/
def memberSights? (embedded? : String → Option Value) (depth : Nat)
    (members : List (List Piece × Tree)) : Option (List (String × Sight)) :=
  (Tree.memberValues? embedded? depth members).map (·.map fun m => (m.1, sight m.2))

theorem itemSights?_cons (depth : Nat) (t : Tree) (items : List Tree) :
    itemSights? embedded? depth (t :: items) =
      ((t.valueWith? embedded? depth).map aspect).bind fun a =>
        (itemSights? embedded? depth items).map (a.1 :: ·) := by
  simp only [itemSights?, Tree.itemValues?]
  cases t.valueWith? embedded? depth <;> cases Tree.itemValues? embedded? depth items <;> rfl

theorem memberSights?_cons (depth : Nat) (key : List Piece) (t : Tree)
    (members : List (List Piece × Tree)) :
    memberSights? embedded? depth ((key, t) :: members) =
      (text? key).bind fun name => ((t.valueWith? embedded? depth).map aspect).bind fun a =>
        (memberSights? embedded? depth members).map ((name, a.1) :: ·) := by
  simp only [memberSights?, Tree.memberValues?]
  cases text? key <;> cases t.valueWith? embedded? depth <;>
    cases Tree.memberValues? embedded? depth members <;> rfl

theorem aspect_valueWith?_array (depth : Nat) (items : List Tree) :
    ((Tree.array items).valueWith? embedded? (depth + 1)).map aspect =
      (itemSights? embedded? depth items).map fun sights => (.other, itemsRequest? sights) := by
  simp only [Tree.valueWith?, itemSights?, Option.map_map]
  exact congrArg (Option.map · _) (funext aspect_array)

theorem aspect_valueWith?_object (depth : Nat) {members : List (List Piece × Tree)}
    (hfirst : isEmbedding members = false) :
    ((Tree.object members).valueWith? embedded? (depth + 1)).map aspect =
      (memberSights? embedded? depth members).map fun sights =>
        (.other, membersRequest? sights) := by
  rw [valueWith?_object hfirst, memberSights?, Option.map_map, Option.map_map]
  exact congrArg (Option.map · _) (funext aspect_object)

/-- Objects that can be read alike and have the same members of the keys that are looked for
have one aspect. -/
theorem aspect_congr (depth : Nat) {members members' : List (List Piece × Tree)}
    (hfirst : isEmbedding members = false) (hfirst' : isEmbedding members' = false)
    (hread : (∃ values, Tree.memberValues? embedded? depth members = some values) ↔
      ∃ values, Tree.memberValues? embedded? depth members' = some values)
    (hkeys : ∀ key ∈ ["channel", "last_seen"], members.filter (fun m => text? m.1 = some key) =
      members'.filter fun m => text? m.1 = some key) :
    ((Tree.object members).valueWith? embedded? (depth + 1)).map aspect =
      ((Tree.object members').valueWith? embedded? (depth + 1)).map aspect := by
  rw [valueWith?_object hfirst, valueWith?_object hfirst']
  cases hvalues : Tree.memberValues? embedded? depth members with
  | none =>
      cases hvalues' : Tree.memberValues? embedded? depth members' with
      | none => rfl
      | some values' =>
          obtain ⟨_, h⟩ := hread.mpr ⟨values', hvalues'⟩
          cases hvalues.symm.trans h
  | some values =>
      obtain ⟨values', hvalues'⟩ := hread.mp ⟨values, hvalues⟩
      have hchannel := member?_congr hvalues hvalues' (hkeys "channel" (by decide))
      have hcursor := member?_congr hvalues hvalues' (hkeys "last_seen" (by decide))
      rw [hvalues']
      simp only [Option.map_some, aspect, requestOf?_member?, hchannel, hcursor]
      rfl

theorem Reordered.aspect_eq {members members' : List (List Piece × Tree)}
    (h : Reordered members members') (hfirst : isEmbedding members = false)
    (hfirst' : isEmbedding members' = false) (depth : Nat) :
    ((Tree.object members).valueWith? embedded? depth).map aspect =
      ((Tree.object members').valueWith? embedded? depth).map aspect := by
  cases depth with
  | zero => rfl
  | succ depth =>
      refine aspect_congr depth hfirst hfirst' ?_ fun key _ => h.2 key
      simp only [exists_memberValues?_iff, h.1.mem_iff]

mutual

theorem Alike.aspect_eq {t t' : Tree} (h : Alike t t') (depth : Nat) :
    (t.valueWith? embedded? depth).map aspect = (t'.valueWith? embedded? depth).map aspect :=
  match h with
  | .refl => rfl
  | .string h => by simp only [Tree.valueWith?, h]
  | .array h => by
      cases depth with
      | zero => rfl
      | succ depth => rw [aspect_valueWith?_array, aspect_valueWith?_array, h.sights_eq depth]
  | @Alike.object members _ h => by
      cases depth with
      | zero => rfl
      | succ depth =>
          cases hfirst : isEmbedding members with
          | true =>
              simp only [Tree.valueWith?, ← h.isEmbedding_eq, hfirst, if_true, h.embeddedText?_eq]
          | false =>
              rw [aspect_valueWith?_object depth hfirst,
                aspect_valueWith?_object depth (h.isEmbedding_eq ▸ hfirst), h.sights_eq depth]
  | .reordered h hfirst hfirst' => h.aspect_eq hfirst hfirst' depth
  | .trans h h' => (h.aspect_eq depth).trans (h'.aspect_eq depth)

theorem AlikeItems.sights_eq {items items' : List Tree} (h : AlikeItems items items')
    (depth : Nat) : itemSights? embedded? depth items = itemSights? embedded? depth items' :=
  match h with
  | .nil => rfl
  | .cons h hrest => by
      rw [itemSights?_cons, itemSights?_cons, h.aspect_eq depth, hrest.sights_eq depth]

theorem AlikeMembers.sights_eq {members members' : List (List Piece × Tree)}
    (h : AlikeMembers members members') (depth : Nat) :
    memberSights? embedded? depth members = memberSights? embedded? depth members' :=
  match h with
  | .nil => rfl
  | .cons hkey h hrest => by
      rw [memberSights?_cons, memberSights?_cons, hkey, h.aspect_eq depth, hrest.sights_eq depth]

end

end

end Json

end EventStream
