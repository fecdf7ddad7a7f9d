import EventStream.Database.Migration

/-! Pools of connections to the database of the event log. -/

namespace EventStream.Pool

structure Settings where
  /-- Milliseconds that a statement waits for a locked database. -/
  busyTimeout : Nat := 5000
  maxSize : Nat := 8
  /-- Milliseconds that a caller waits for a free connection. -/
  acquireTimeout : Nat := 2000
  deriving DecidableEq, Repr

inductive Location where
  /-- A database of one connection that no other connection sees. -/
  | memory
  | file
  /-- A file that cannot be opened. -/
  | unreachable
  deriving DecidableEq, Repr

inductive Failure where
  | invalidSettings
  /-- Without any time to wait a pool cannot be built. -/
  | noAcquireTime
  | init
  deriving DecidableEq, Repr

def Failure.message : Failure → String
  | invalidSettings => "invalid database settings: pool_max_size must be at least 1"
  | noAcquireTime => "connection timeout must be positive"
  | init => "failed to create database connection pool"

/-- The greatest busy timeout that the database takes. -/
def maxBusyTimeout : Nat := Nat.pow 2 31 - 1

/-- The sizes in force. A database in memory has a single connection. -/
def create (location : Location) (s : Settings) : Except Failure Settings :=
  if s.maxSize = 0 then .error .invalidSettings
  else if s.acquireTimeout = 0 then .error .noAcquireTime
  else if location = .unreachable ∨ maxBusyTimeout < s.busyTimeout then .error .init
  else .ok { s with maxSize := if location = .memory then 1 else s.maxSize }

end EventStream.Pool
