import EventStream.Instant
import EventStream.Checkpoint
import EventStream.Numeral
import EventStream.IpAddress
import EventStream.Database.BuiltIn
import EventStream.Database
import EventStream.Database.Migration
import EventStream.Database.Statement
import EventStream.Pool
import EventStream.Instant.Date
import EventStream.Toml.Node
import EventStream.Toml.Text
import EventStream.Toml.Scalar
import EventStream.Toml.Reader
import EventStream.Config
import EventStream.Uuid
import EventStream.Vocabulary
import EventStream.Event
import EventStream.Instant.Rfc3339
import EventStream.Json.Tree
import EventStream.Json.Reader
import EventStream.Json.Writer
import EventStream.Frame
import EventStream.Http.Form
import EventStream.Http.Target
import EventStream.Log.Row
import EventStream.Log
import EventStream.Http
import EventStream.Outbound
import EventStream.Subscriber
import EventStream.Json.Value
import EventStream.Json.Document
import EventStream.Subscription
import EventStream.Task
import EventStream.Hub
import EventStream.Hub.Step
import EventStream.Server
import EventStream.Session.State
import EventStream.Session.Command
import EventStream.Session
import EventStream.Vocabulary.Json
import EventStream.Proofs.Instant
import EventStream.Proofs.Log
import EventStream.Proofs.Batch
import EventStream.Proofs.Subscriber
import EventStream.Proofs.Subscriber.Refusal
import EventStream.Proofs.Replay
import EventStream.Proofs.Tick
import EventStream.Proofs.World
import EventStream.Proofs.World.Effect
import EventStream.Proofs.World.Parts
import EventStream.Proofs.World.Lock
import EventStream.Proofs.World.Permits
import EventStream.Proofs.World.Cost
import EventStream.Proofs.World.Sound
import EventStream.Proofs.World.Halved
import EventStream.Proofs.Delivery.Order
import EventStream.Proofs.Delivery.Floor
import EventStream.Proofs.Delivery.Queue
import EventStream.Proofs.Delivery.Announced
import EventStream.Proofs.Delivery.Sweep
import EventStream.Proofs.Delivery.Due
import EventStream.Proofs.Delivery.Ascending
import EventStream.Proofs.Delivery.Offers
import EventStream.Proofs.Delivery.Single
import EventStream.Proofs.Delivery.Act
import EventStream.Proofs.Delivery.Rounds
import EventStream.Proofs.Delivery.Round
import EventStream.Proofs.Delivery.Gap
import EventStream.Proofs.Delivery.Tail
import EventStream.Proofs.Delivery.ExactlyOnce
import EventStream.Proofs.Delivery.Overflow
import EventStream.Proofs.Delivery.Accepted
import EventStream.Proofs.Delivery.Restore
import EventStream.Proofs.Delivery.Abort
import EventStream.Proofs.Delivery.Resubscribe
import EventStream.Proofs.Delivery.Handover
import EventStream.Proofs.Polling.Batches
import EventStream.Proofs.Polling.Cursor
import EventStream.Proofs.Polling
import EventStream.Proofs.Polling.Marks
import EventStream.Proofs.Polling.Completion
import EventStream.Proofs.Session
import EventStream.Proofs.Delivery.Phases
import EventStream.Proofs.Delivery.Transcript
import EventStream.Proofs.Delivery.Blocks
import EventStream.Proofs.Json.Grammar
import EventStream.Proofs.Json.Tokens
import EventStream.Proofs.Json.Values
import EventStream.Proofs.Json.Members
import EventStream.Proofs.Numeral
import EventStream.Proofs.Json.Writing
import EventStream.Proofs.Instant.Date
import EventStream.Proofs.Instant.Rfc3339
import EventStream.Proofs.Uuid
import EventStream.Proofs.Frame
import EventStream.Proofs.Subscription.Envelope
import EventStream.Proofs.Subscription.Request
import EventStream.Proofs.Subscription.Alike
import EventStream.Proofs.Subscription
import EventStream.Proofs.Log.Stored
import EventStream.Proofs.Log.Ids
import EventStream.Proofs.Server.Settle
import EventStream.Proofs.Server.Run
import EventStream.Proofs.Server.Waiting
import EventStream.Proofs.Server.Silence
import EventStream.Proofs.Database.Ledger
import EventStream.Proofs.Database.Migration
import EventStream.Proofs.Database.Upgrade
import EventStream.Proofs.Database.EventLog
import EventStream.Proofs.Database.Schema
import EventStream.Proofs.Http.Form
import EventStream.Proofs.Http.History
import EventStream.Proofs.Subscription.Since
import EventStream.Proofs.Delivery.History
import EventStream.Proofs.History
import EventStream.Proofs.Delivery.Reconcile
import EventStream.Proofs.Delivery.Reading
import EventStream.Proofs.Delivery.Mark
import EventStream.Proofs.Log.Decoding
import EventStream.Proofs.Log.Selection
import EventStream.Proofs.Http.Page
import EventStream.Proofs.Polling.Share
import EventStream.Proofs.Config
import EventStream.Proofs.Delivery.Inclusive
