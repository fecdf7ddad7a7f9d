import EventStream.Instant.Rfc3339
import EventStream.Proofs.Instant.Date
import EventStream.Proofs.Json.Tokens
import EventStream.Proofs.Numeral

/-! A reader of RFC 3339 text in UTC, and that it reads every instant back as it is written. -/

namespace EventStream.Instant

open Numeral (padded ofDigitChars_padded)
open Json (digits? IsDigits NoDigit)

/-! ### The reader -/

/-- A number of so many digits, up to the character that ends it. -/
def field? (width : Nat) (stop : Char) (s : List Char) : Option (Nat × List Char) := do
  let (ds, c :: rest) ← digits? s | none
  if ds.length = width ∧ c = stop then return (Nat.ofDigitChars 10 ds 0, rest) else none

/-- A year behind its sign. -/
def signedYear? (s : List Char) : Option (Nat × List Char) := do
  let (ds, '-' :: rest) ← digits? s | none
  if 4 ≤ ds.length then return (Nat.ofDigitChars 10 ds 0, rest) else none

def year? : List Char → Option (Int × List Char)
  | '-' :: s => (signedYear? s).map fun (n, rest) => (-(n : Int), rest)
  | '+' :: s => (signedYear? s).map fun (n, rest) => ((n : Int), rest)
  | s => (field? 4 '-' s).map fun (n, rest) => ((n : Int), rest)

/-- Nanoseconds: digits behind a point, at most nine. -/
def nano? (s : List Char) : Option (Nat × List Char) := do
  let (ds, rest) ← Json.fraction? s
  if ds.length ≤ 9 then return (Nat.ofDigitChars 10 ds 0 * 10 ^ (9 - ds.length), rest) else none

/-- The instant of a date and a time of day; second 60 is the leap second behind second 59. -/
def ofParts? (date : Date) (hour minute second nano : Nat) : Option Instant :=
  if date = .ofDays date.toDays ∧ hour < 24 ∧ minute < 60 ∧ second ≤ 60 then
    ofUnix? (date.toDays * 86400 + (hour * 3600 + minute * 60 + min second 59 : Nat))
      (nano + second / 60 * 1000000000)
  else none

/-- An instant from its RFC 3339 text in UTC. -/
def ofRfc3339? (s : String) : Option Instant := do
  let (year, s) ← year? s.toList
  let (month, s) ← field? 2 '-' s
  let (day, s) ← field? 2 'T' s
  let (hour, s) ← field? 2 ':' s
  let (minute, s) ← field? 2 ':' s
  let (second, s) ← digits? s
  let (nano, s) ← nano? s
  if second.length = 2 ∧ s = ['Z'] then
    ofParts? { year, month, day } hour minute (Nat.ofDigitChars 10 second 0) nano
  else none

/-! ### What is written is read back -/

theorem isDigits_padded (width n : Nat) : IsDigits (padded width n) :=
  ⟨Numeral.padded_ne_nil width n, fun _ => Numeral.isDigit_of_mem_padded⟩

theorem field?_padded {width n : Nat} (stop : Char) (hstop : stop.isDigit = false)
    (hwidth : 0 < width) (hn : n < 10 ^ width) (rest : List Char) :
    field? width stop (padded width n ++ stop :: rest) = some (n, rest) := by
  have hrest : NoDigit (stop :: rest) := fun c hc => by cases hc; exact hstop
  simp only [field?, (isDigits_padded width n).digits? hrest, Option.bind_eq_bind,
    Option.bind_some, Numeral.length_padded hwidth hn, and_self, if_true, ofDigitChars_padded,
    Option.pure_def]

theorem signedYear?_padded (n : Nat) (rest : List Char) :
    signedYear? (padded 4 n ++ '-' :: rest) = some (n, rest) := by
  have hrest : NoDigit ('-' :: rest) := fun c hc => by cases hc; rfl
  simp only [signedYear?, (isDigits_padded 4 n).digits? hrest, Option.bind_eq_bind,
    Option.bind_some, if_pos (Numeral.le_length_padded 4 n), ofDigitChars_padded, Option.pure_def]

theorem year?_yearText (year : Int) (rest : List Char) :
    year? (yearText year ++ '-' :: rest) = some (year, rest) := by
  unfold yearText
  split
  · next h =>
    obtain ⟨d, ds, hds, hd⟩ := (isDigits_padded 4 year.toNat).exists_cons
    have hread := field?_padded '-' rfl (by decide : 0 < 4) (by omega : year.toNat < 10 ^ 4) rest
    rw [hds] at hread ⊢
    rw [List.cons_append] at hread ⊢
    rw [year?.eq_3, hread]
    · simp only [Option.map_some, Option.some.injEq, Prod.mk.injEq, and_true]
      omega
    · rintro s heq
      rw [(List.cons.inj heq).1] at hd
      cases hd
    · rintro s heq
      rw [(List.cons.inj heq).1] at hd
      cases hd
  · split
    · simp only [List.cons_append, year?, signedYear?_padded, Option.map_some, Option.some.injEq,
        Prod.mk.injEq, and_true]
      omega
    · simp only [List.cons_append, year?, signedYear?_padded, Option.map_some, Option.some.injEq,
        Prod.mk.injEq, and_true]
      omega

theorem nano?_point {width n : Nat} (hwidth : 0 < width) (hnine : width ≤ 9)
    (hn : n < 10 ^ width) {rest : List Char} (hrest : NoDigit rest) :
    nano? ('.' :: padded width n ++ rest) = some (n * 10 ^ (9 - width), rest) := by
  simp only [nano?, List.cons_append, Json.fraction?, (isDigits_padded width n).digits? hrest,
    Option.bind_eq_bind, Option.bind_some, Numeral.length_padded hwidth hn, if_pos hnine,
    ofDigitChars_padded, Option.pure_def]

theorem nano?_fractionText {nano : Nat} (h : nano < 1000000000) :
    nano? (fractionText nano ++ ['Z']) = some (nano, ['Z']) := by
  have hrest : NoDigit ['Z'] := fun c hc => by cases hc; rfl
  unfold fractionText
  split
  · next hzero =>
    rw [hzero]
    rfl
  · split
    · rw [nano?_point (by decide) (by decide) (by omega) hrest]
      simp only [Option.some.injEq, Prod.mk.injEq, and_true]
      omega
    · split
      · rw [nano?_point (by decide) (by decide) (by omega) hrest]
        simp only [Option.some.injEq, Prod.mk.injEq, and_true]
        omega
      · rw [nano?_point (by decide) (by decide) (by omega) hrest]
        simp

theorem noDigit_fractionText (nano : Nat) : NoDigit (fractionText nano ++ ['Z']) := by
  intro c hc
  unfold fractionText at hc
  split at hc
  · cases hc; rfl
  · split at hc
    · cases hc; rfl
    · split at hc <;> (cases hc; rfl)

theorem ofUnix?_self (t : Instant) : ofUnix? t.second t.nano = some t := dif_pos t.inRange

theorem ofParts?_self (t : Instant) :
    ofParts? (.ofDays (t.second / 86400)) ((t.second % 86400).toNat / 3600)
      ((t.second % 86400).toNat / 60 % 60)
      ((t.second % 86400).toNat % 60 + t.nano / 1000000000) (t.nano % 1000000000) = some t := by
  have hrange := t.inRange
  simp only [InRange] at hrange
  rw [ofParts?, Date.toDays_ofDays, if_pos ⟨rfl, by omega, by omega, by omega⟩]
  have hsecond : t.second / 86400 * 86400 + (((t.second % 86400).toNat / 3600 * 3600 +
      (t.second % 86400).toNat / 60 % 60 * 60 +
      min ((t.second % 86400).toNat % 60 + t.nano / 1000000000) 59 : Nat) : Int) = t.second := by
    omega
  have hnano : t.nano % 1000000000 +
      ((t.second % 86400).toNat % 60 + t.nano / 1000000000) / 60 * 1000000000 = t.nano := by
    omega
  rw [hsecond, hnano, ofUnix?_self]

theorem ofRfc3339?_rfc3339 (t : Instant) : ofRfc3339? t.rfc3339 = some t := by
  have hrange := t.inRange
  simp only [InRange] at hrange
  have hmonth := Date.month_ofDays (t.second / 86400)
  have hday := Date.day_ofDays (t.second / 86400)
  have hsecond : (t.second % 86400).toNat % 60 + t.nano / 1000000000 < 10 ^ 2 := by omega
  have hclock := (isDigits_padded 2 ((t.second % 86400).toNat % 60 + t.nano / 1000000000)).digits?
    (noDigit_fractionText (t.nano % 1000000000))
  have hnano := nano?_fractionText (Nat.mod_lt t.nano (by decide : 0 < 1000000000))
  have hparts := ofParts?_self t
  simp only [ofRfc3339?, rfc3339, String.toList_ofList, dateText, clockText, List.append_assoc,
    List.cons_append, year?_yearText, Option.bind_eq_bind, Option.bind_some]
  rw [field?_padded '-' rfl (by decide) (by omega), Option.bind_some]
  rw [field?_padded 'T' rfl (by decide) (by omega), Option.bind_some]
  rw [field?_padded ':' rfl (by decide) (by omega), Option.bind_some]
  rw [field?_padded ':' rfl (by decide) (by omega), Option.bind_some]
  simp only [hclock, hnano, Option.bind_some, Numeral.length_padded (by decide) hsecond,
    ofDigitChars_padded, and_self, if_true]
  exact hparts

end EventStream.Instant
