/-! Instants of UTC time to the nanosecond. A leap second is kept as part of the
second before it, with nanoseconds from 10⁹ on. -/

namespace EventStream

namespace Instant

/-- The first representable second, the start of the year -262143. -/
def minSecond : Int := -8334601228800

/-- The last representable second, the end of the year 262142. -/
def maxSecond : Int := 8210266876799

/-- Only the last second of a minute can be followed by a leap second. -/
def InRange (second : Int) (nano : Nat) : Prop :=
  minSecond ≤ second ∧ second ≤ maxSecond ∧ nano < 2000000000 ∧
    (1000000000 ≤ nano → second % 60 = 59)

instance (second : Int) (nano : Nat) : Decidable (InRange second nano) :=
  inferInstanceAs (Decidable (_ ∧ _ ∧ _ ∧ _))

end Instant

/-- Whole seconds since 1970-01-01T00:00:00Z, rounded down, and the nanoseconds
that have passed since then. -/
structure Instant where
  second : Int
  nano : Nat
  inRange : Instant.InRange second nano
  deriving DecidableEq

namespace Instant

/-- The start of 1970. -/
def epoch : Instant := ⟨0, 0, by decide⟩

instance : Inhabited Instant := ⟨epoch⟩

def ofUnix? (second : Int) (nano : Nat) : Option Instant :=
  if h : InRange second nano then some ⟨second, nano, h⟩ else none

/-- Instants are ordered by second, then by nanosecond. -/
def key (t : Instant) : Int := t.second * 2000000000 + t.nano

instance : LT Instant := ⟨fun a b => a.key < b.key⟩
instance : LE Instant := ⟨fun a b => a.key ≤ b.key⟩
instance (a b : Instant) : Decidable (a < b) := inferInstanceAs (Decidable (a.key < b.key))
instance (a b : Instant) : Decidable (a ≤ b) := inferInstanceAs (Decidable (a.key ≤ b.key))
instance : Max Instant := maxOfLe

theorem key_inj {a b : Instant} (h : a.key = b.key) : a = b := by
  obtain ⟨s, n, hs⟩ := a
  obtain ⟨s', n', hs'⟩ := b
  simp only [key] at h
  simp only [InRange] at hs hs'
  obtain rfl : s = s' := by omega
  obtain rfl : n = n' := by omega
  rfl

/-! ### Whole microseconds and milliseconds -/

/-- Microseconds since the epoch, rounded down; those of a leap second overlap the
next second's. -/
def micros (t : Instant) : Int := t.second * 1000000 + t.nano / 1000

def ofMicros? (n : Int) : Option Instant :=
  ofUnix? (n / 1000000) ((n % 1000000).toNat * 1000)

def ofMillis? (n : Int) : Option Instant :=
  ofUnix? (n / 1000) ((n % 1000).toNat * 1000000)

/-- Milliseconds since the epoch, rounded down. -/
def millis (t : Instant) : Int := t.second * 1000 + t.nano / 1000000

/-- The nanoseconds below the microsecond are dropped. -/
def truncate (t : Instant) : Instant where
  second := t.second
  nano := t.nano - t.nano % 1000
  inRange := by
    have h := t.inRange
    simp only [InRange] at h ⊢
    refine ⟨h.1, h.2.1, by omega, fun hn => h.2.2.2 (by omega)⟩

/-! ### Neighbours one microsecond away -/

/-- One microsecond later; a leap second runs out into the second after it. -/
def next? (t : Instant) : Option Instant :=
  let span := if t.nano < 1000000000 then 1000000000 else 2000000000
  if t.nano + 1000 < span then ofUnix? t.second (t.nano + 1000)
  else ofUnix? (t.second + 1) (t.nano + 1000 - span)

/-- One microsecond earlier. -/
def prev? (t : Instant) : Option Instant :=
  if 1000 ≤ t.nano then ofUnix? t.second (t.nano - 1000)
  else ofUnix? (t.second - 1) (t.nano + 1000000000 - 1000)

end Instant

end EventStream
