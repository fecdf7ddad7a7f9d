import EventStream.IpAddress
import EventStream.Pool
import EventStream.Toml.Reader

/-! The server's configuration: defaults, a TOML document over them, and environment
variables over both. -/

namespace EventStream

namespace Config

/-- The address to listen on. -/
structure Server where
  host : IpAddress := .loopback
  port : Nat := 3000

structure Database where
  path : String := "tidewatch.db"
  busyTimeout : Nat := 5000
  poolMaxSize : Nat := 8
  acquireTimeout : Nat := 2000

structure Logging where
  level : String := "info"
  json : Bool := false

structure Stream where
  /-- Milliseconds between ticks. -/
  pollInterval : Nat := 1000
  /-- Frames that a connection's queue holds. -/
  outboundCapacity : Nat := 256
  maxReplays : Nat := 64

/-- Each size in force is at least 1. -/
def Stream.inForce (s : Stream) : Stream where
  pollInterval := max 1 s.pollInterval
  outboundCapacity := max 1 s.outboundCapacity
  maxReplays := max 1 s.maxReplays

def Database.pool (d : Database) : Pool.Settings where
  busyTimeout := d.busyTimeout
  maxSize := d.poolMaxSize
  acquireTimeout := d.acquireTimeout

end Config

structure Config where
  server : Config.Server := {}
  database : Config.Database := {}
  logging : Config.Logging := {}
  stream : Config.Stream := {}

namespace Config

open Toml (Node Entries)

/-! ### From a document -/

def text? : Node → Option String
  | .string s => some s
  | _ => none

def boolean? : Node → Option Bool
  | .boolean b => some b
  | _ => none

/-- A nonnegative integer of so many bits. -/
def bits? (width : Nat) : Node → Option Nat
  | .integer n => if 0 ≤ n ∧ n < Int.pow 2 width then some n.toNat else none
  | _ => none

def address? (n : Node) : Option IpAddress := text? n >>= IpAddress.parse?

/-- The settings of a section, by position and name: a table names them, an array lists
them in order, and a date or time gives none of them. -/
def section? : Node → Option (Nat → String → Option Node)
  | .table _ entries => some fun _ name => entries.lookup name
  | .array items => some fun i _ => items[i]?
  | .moment => some fun _ _ => none
  | _ => none

/-- What a setting or a section is read as, the default if it is missing. -/
def read? {α : Type} (parse? : Node → Option α) (default : α) : Option Node → Option α
  | none => some default
  | some node => parse? node

def Server.ofNode? (node : Node) : Option Server := do
  let setting ← section? node
  return {
    host := ← read? address? .loopback (setting 0 "host")
    port := ← read? (bits? 16) 3000 (setting 1 "port") }

def Database.ofNode? (node : Node) : Option Database := do
  let setting ← section? node
  let d : Database := {}
  return {
    path := ← read? text? d.path (setting 0 "path")
    busyTimeout := ← read? (bits? 64) d.busyTimeout (setting 1 "busy_timeout_ms")
    poolMaxSize := ← read? (bits? 32) d.poolMaxSize (setting 2 "pool_max_size")
    acquireTimeout := ← read? (bits? 64) d.acquireTimeout (setting 3 "acquire_timeout_ms") }

def Logging.ofNode? (node : Node) : Option Logging := do
  let setting ← section? node
  let d : Logging := {}
  return {
    level := ← read? text? d.level (setting 0 "level")
    json := ← read? boolean? d.json (setting 1 "json") }

def Stream.ofNode? (node : Node) : Option Stream := do
  let setting ← section? node
  let d : Stream := {}
  return {
    pollInterval := ← read? (bits? 64) d.pollInterval (setting 0 "poll_interval_ms")
    outboundCapacity :=
      ← read? (bits? 64) d.outboundCapacity (setting 1 "outbound_queue_capacity")
    maxReplays := ← read? (bits? 64) d.maxReplays (setting 2 "max_concurrent_replays") }

/-- Sections and settings of other names are not looked at. -/
def ofEntries? (entries : Entries) : Option Config := do
  return {
    server := ← read? Server.ofNode? {} (entries.lookup "server")
    database := ← read? Database.ofNode? {} (entries.lookup "database")
    logging := ← read? Logging.ofNode? {} (entries.lookup "logging")
    stream := ← read? Stream.ofNode? {} (entries.lookup "stream") }

def parse? (text : String) : Option Config := Toml.document? text >>= ofEntries?

/-! ### From the environment -/

/-- Decimal digits, after a plus sign or none, of a number of so many bits. -/
def decimal? (width : Nat) (text : String) : Option Nat := do
  let n ← Numeral.unsigned? text.toList
  if n < Nat.pow 2 width then some n else none

/-- A variable that cannot be read as its setting's value leaves the setting alone. Every
text is read as a value of the JSON setting: `true` and `1` as true, all others as false. -/
def withEnvironment (c : Config) (lookup : String → Option String) : Config where
  server := {
    host := (lookup "TIDEWATCH_HOST" >>= IpAddress.parse?).getD c.server.host
    port := (lookup "TIDEWATCH_PORT" >>= decimal? 16).getD c.server.port }
  database := { c.database with
    path := (lookup "TIDEWATCH_DB_PATH").getD c.database.path }
  logging := {
    level := (lookup "TIDEWATCH_LOG_LEVEL").getD c.logging.level
    json := ((lookup "TIDEWATCH_LOG_JSON").map fun s => s = "true" || s = "1").getD
      c.logging.json }
  stream := { c.stream with
    pollInterval :=
      (lookup "TIDEWATCH_POLL_INTERVAL_MS" >>= decimal? 64).getD c.stream.pollInterval }

/-! ### Loading -/

/-- What is found where the configuration is to be read. -/
inductive Source where
  | absent
  | directory
  | file (content : ByteArray)

inductive Failure where
  | fileRead
  | parse
  deriving DecidableEq, Repr

def ofSource : Source → Except Failure Config
  | .absent => .ok {}
  | .directory => .error .fileRead
  | .file content =>
    match String.fromUTF8? content with
    | none => .error .fileRead
    | some text =>
      match parse? text with
      | none => .error .parse
      | some c => .ok c

def load (source : Source) (lookup : String → Option String) : Except Failure Config :=
  (ofSource source).map (·.withEnvironment lookup)

end Config

end EventStream
