import EventStream.Config
import Mathlib.Tactic.Common

/-! What environment variables make of a configuration: each the setting that it belongs to, and
nothing else. -/

namespace EventStream

namespace Numeral

variable {cs : List Char} {n : Nat}

theorem decimal?_eq_some_iff :
    decimal? cs = some n ↔
      cs ≠ [] ∧ (∀ c ∈ cs, c.isDigit = true) ∧ Nat.ofDigitChars 10 cs 0 = n := by
  rw [decimal?, Option.ite_none_right_eq_some, List.all_eq_true, Option.some.injEq, and_assoc]

/-- A plus sign is no digit. -/
theorem unsigned?_eq_some_iff :
    unsigned? cs = some n ↔
      ∃ digits, (cs = digits ∨ cs = '+' :: digits) ∧ decimal? digits = some n := by
  unfold unsigned?
  split
  · next digits =>
    constructor
    · exact fun h => ⟨digits, .inr rfl, h⟩
    · rintro ⟨_, rfl | h, hn⟩
      · have hplus := (decimal?_eq_some_iff.mp hn).2.1 '+' List.mem_cons_self
        cases hplus
      · cases h
        exact hn
  · next hplus =>
    constructor
    · exact fun h => ⟨cs, .inl rfl, h⟩
    · rintro ⟨digits, rfl | h, hn⟩
      · exact hn
      · exact absurd h (hplus digits)

end Numeral

namespace Config

/-- The settings that a variable can set. -/
inductive Setting where
  | host
  | port
  | path
  | level
  | json
  | pollInterval
  deriving DecidableEq, Repr

/-- The text is that of a number of so many bits: decimal digits, after a plus sign or none. -/
def IsDecimal (width : Nat) (text : String) (n : Nat) : Prop :=
  (∃ digits, (text.toList = digits ∨ text.toList = '+' :: digits) ∧
    digits ≠ [] ∧ (∀ c ∈ digits, c.isDigit = true) ∧ Nat.ofDigitChars 10 digits 0 = n) ∧
  n < Nat.pow 2 width

theorem decimal?_eq_some_iff {width n : Nat} {text : String} :
    decimal? width text = some n ↔ IsDecimal width text n := by
  simp only [decimal?, Option.bind_eq_bind, Option.bind_eq_some_iff,
    Option.ite_none_right_eq_some, Option.some.injEq, Numeral.unsigned?_eq_some_iff,
    Numeral.decimal?_eq_some_iff, IsDecimal]
  constructor
  · rintro ⟨_, h, hlt, rfl⟩
    exact ⟨h, hlt⟩
  · rintro ⟨h, hlt⟩
    exact ⟨n, h, hlt, rfl⟩

namespace Setting

/-- The variable that it is set by. -/
def name : Setting → String
  | host => "TIDEWATCH_HOST"
  | port => "TIDEWATCH_PORT"
  | path => "TIDEWATCH_DB_PATH"
  | level => "TIDEWATCH_LOG_LEVEL"
  | json => "TIDEWATCH_LOG_JSON"
  | pollInterval => "TIDEWATCH_POLL_INTERVAL_MS"

def Value : Setting → Type
  | host => IpAddress
  | port => Nat
  | path => String
  | level => String
  | json => Bool
  | pollInterval => Nat

def get (c : Config) : (s : Setting) → s.Value
  | host => c.server.host
  | port => c.server.port
  | path => c.database.path
  | level => c.logging.level
  | json => c.logging.json
  | pollInterval => c.stream.pollInterval

/-- The text is that of a value of the setting. -/
def Denotes : (s : Setting) → String → s.Value → Prop
  | host, text, v => IpAddress.parse? text = some v
  | port, text, v => IsDecimal 16 text v
  | path, text, v => text = v
  | level, text, v => text = v
  | json, text, true => text = "true" ∨ text = "1"
  | json, text, false => text = "false" ∨ text = "0"
  | pollInterval, text, v => IsDecimal 64 text v

/-- From the old value and the text of the variable, if it is set, the new value comes as it
should: a text that is that of no value is passed over. -/
def Follows (s : Setting) (text? : Option String) (old new : s.Value) : Prop :=
  match text? with
  | none => new = old
  | some text =>
    (∀ v, s.Denotes text v → new = v) ∧ ((∀ v, ¬ s.Denotes text v) → new = old)

/-- What the text of the variable is read as. -/
def read? : (s : Setting) → String → Option s.Value
  | host, text => IpAddress.parse? text
  | port, text => decimal? 16 text
  | path, text => some text
  | level, text => some text
  | json, text => some (text = "true" || text = "1")
  | pollInterval, text => decimal? 64 text

/-- The new value. -/
def overlay (s : Setting) (text? : Option String) (old : s.Value) : s.Value :=
  (text?.bind s.read?).getD old

variable {s : Setting} {text : String} {text? : Option String}

/-! ### One setting -/

theorem overlay_overlay (old : s.Value) :
    s.overlay text? (s.overlay text? old) = s.overlay text? old := by
  unfold overlay
  cases text?.bind s.read? <;> rfl

theorem read?_eq_some_iff (hs : s ≠ json) {v : s.Value} :
    s.read? text = some v ↔ s.Denotes text v := by
  cases s with
  | host => exact .rfl
  | port => exact decimal?_eq_some_iff
  | path => exact Option.some_inj
  | level => exact Option.some_inj
  | json => exact absurd rfl hs
  | pollInterval => exact decimal?_eq_some_iff

theorem follows_overlay_of_ne_json (hs : s ≠ json) (old : s.Value) :
    s.Follows text? old (s.overlay text? old) := by
  cases text? with
  | none => rfl
  | some text =>
    refine ⟨fun v hv => ?_, fun hnone => ?_⟩
    · rw [overlay, Option.bind_some, (read?_eq_some_iff hs).mpr hv, Option.getD_some]
    · have hread : s.read? text = none :=
        Option.eq_none_iff_forall_ne_some.mpr fun v hv => hnone v ((read?_eq_some_iff hs).mp hv)
      rw [overlay, Option.bind_some, hread, Option.getD_none]

theorem overlay_json_eq_true_iff {old : Bool} :
    json.overlay (some text) old = true ↔ json.Denotes text true := by
  change (text = "true" || text = "1") = true ↔ text = "true" ∨ text = "1"
  simp

theorem not_denotes_false_of_denotes_true (h : json.Denotes text true) :
    ¬ json.Denotes text false := by
  rcases h with rfl | rfl <;> simp [Denotes]

/-- A text that is that of no truth value is read as `false`, and so is passed over only where the
setting is `false` already. -/
theorem follows_overlay_json_iff (old : Bool) :
    json.Follows text? old (json.overlay text? old) ↔
      ¬ (old = true ∧ ∃ text ∈ text?, ∀ v, ¬ json.Denotes text v) := by
  cases text? with
  | none => exact ⟨nofun, fun _ => rfl⟩
  | some text =>
    have hnew : json.overlay (some text) old = true ↔ json.Denotes text true :=
      overlay_json_eq_true_iff
    generalize json.overlay (some text) old = new at hnew
    by_cases htrue : json.Denotes text true
    · have hfalse := not_denotes_false_of_denotes_true htrue
      have hv : ∀ v, json.Denotes text v → new = v := fun
        | true, _ => hnew.mpr htrue
        | false, h => absurd h hfalse
      refine iff_of_true ⟨hv, fun h => absurd htrue (h true)⟩ ?_
      rintro ⟨-, _, ⟨⟩, h⟩
      exact h true htrue
    · -- the setting is off now, be it for a text of `false` or for one of neither value
      have hnew : new = false := Bool.eq_false_iff.mpr fun h => htrue (hnew.mp h)
      have hv : ∀ v, json.Denotes text v → new = v := fun
        | true, h => absurd h htrue
        | false, _ => hnew
      rw [hnew] at hv ⊢
      constructor
      · rintro ⟨-, hold⟩ ⟨rfl, _, ⟨⟩, hnone⟩
        cases hold hnone
      · intro h
        refine ⟨hv, fun hnone => ?_⟩
        exact (Bool.eq_false_iff.mpr fun hold => h ⟨hold, text, rfl, hnone⟩).symm

end Setting

/-! ### All settings -/

/-- The configuration with these values of the settings. -/
def override (c : Config) (value : (s : Setting) → s.Value) : Config where
  server := { host := value .host, port := value .port }
  database := { c.database with path := value .path }
  logging := { level := value .level, json := value .json }
  stream := { c.stream with pollInterval := value .pollInterval }

theorem get_withEnvironment (c : Config) (lookup : String → Option String) (s : Setting) :
    s.get (c.withEnvironment lookup) = s.overlay (lookup s.name) (s.get c) := by
  cases s with
  | host => rfl
  | port => rfl
  | path => exact (congrArg (Option.getD · _) (Option.bind_fun_some _)).symm
  | level => exact (congrArg (Option.getD · _) (Option.bind_fun_some _)).symm
  | json => exact congrArg (Option.getD · _) (Option.map_eq_bind ..)
  | pollInterval => rfl

/-- Whatever no variable sets is as before. -/
theorem override_withEnvironment (c : Config) (lookup : String → Option String) :
    (c.withEnvironment lookup).override (fun s => s.get c) = c :=
  rfl

theorem withEnvironment_twice (c : Config) (lookup : String → Option String) :
    (c.withEnvironment lookup).withEnvironment lookup = c.withEnvironment lookup := by
  let d := c.withEnvironment lookup
  have hget (s : Setting) : s.get (d.withEnvironment lookup) = s.get d := by
    simp only [d, get_withEnvironment, Setting.overlay_overlay]
  calc
    d.withEnvironment lookup
      = (d.withEnvironment lookup).override fun s => s.get (d.withEnvironment lookup) := rfl
    _ = (d.withEnvironment lookup).override fun s => s.get d := by simp only [hget]
    _ = d := override_withEnvironment d lookup

/-- Variables set their own settings only, each by its own old value and its own text, and the
second time they change nothing. A setting comes out as it should, unless it is the one of the
JSON format, it was on and its variable has a text that is that of no truth value. -/
theorem withEnvironment_follows_iff (c : Config) (lookup : String → Option String) :
    (c.withEnvironment lookup).override (fun s => s.get c) = c ∧
    (∀ (s : Setting) (d : Config) (lookup' : String → Option String),
      s.get d = s.get c → lookup' s.name = lookup s.name →
        s.get (d.withEnvironment lookup') = s.get (c.withEnvironment lookup)) ∧
    (∀ s : Setting, s.Follows (lookup s.name) (s.get c) (s.get (c.withEnvironment lookup)) ↔
      ¬ (s = .json ∧ c.logging.json = true ∧
        ∃ text ∈ lookup Setting.json.name, ∀ v, ¬ Setting.json.Denotes text v)) ∧
    (c.withEnvironment lookup).withEnvironment lookup = c.withEnvironment lookup := by
  refine ⟨override_withEnvironment c lookup, fun s d lookup' hget htext => ?_, fun s => ?_,
    withEnvironment_twice c lookup⟩
  · rw [get_withEnvironment, get_withEnvironment, hget, htext]
  · rw [get_withEnvironment]
    by_cases hs : s = .json
    · subst hs
      exact (Setting.follows_overlay_json_iff c.logging.json).trans
        (not_congr (and_iff_right rfl).symm)
    · exact iff_of_true (Setting.follows_overlay_of_ne_json hs _) fun h => hs h.1

/-- The address, the interval and the port have texts of no value, one for want of range. -/
theorem withEnvironment_follows_of_unreadable :
    let lookup (name : String) : Option String := List.lookup name [
      ("TIDEWATCH_HOST", "localhost"), ("TIDEWATCH_PORT", "65536"),
      ("TIDEWATCH_POLL_INTERVAL_MS", ""), ("TIDEWATCH_LOG_JSON", "1")]
    let c : Config := { server := { port := 9000 } }
    (∀ s : Setting, s.Follows (lookup s.name) (s.get c) (s.get (c.withEnvironment lookup))) ∧
      (c.withEnvironment lookup).server.host = .loopback ∧
      (c.withEnvironment lookup).server.port = 9000 ∧
      (c.withEnvironment lookup).logging.json = true ∧
      (c.withEnvironment lookup).stream.pollInterval = 1000 := by
  intro lookup c
  have h := (withEnvironment_follows_iff c lookup).2.2.1
  refine ⟨fun s => (h s).mpr ?_, ?_⟩
  · rintro ⟨-, hjson, -⟩
    cases hjson
  · decide +kernel

/-- The JSON format is on, and a text that is that of no truth value turns it off. -/
theorem unreadable_json_cleared :
    let lookup (name : String) : Option String := List.lookup name [
      ("TIDEWATCH_LOG_JSON", "yes")]
    let c : Config := { logging := { json := true } }
    lookup Setting.json.name = some "yes" ∧ (∀ v, ¬ Setting.json.Denotes "yes" v) ∧
      Setting.json.get c = true ∧ Setting.json.get (c.withEnvironment lookup) = false := by
  refine ⟨rfl, fun v => ?_, rfl, rfl⟩
  cases v <;> simp [Setting.Denotes]

end Config

end EventStream
