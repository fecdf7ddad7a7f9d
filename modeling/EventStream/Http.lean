import EventStream.Frame
import EventStream.Http.Form
import EventStream.Http.Target
import EventStream.Log

/-! The HTTP interface: health, the history of events, and the socket's address. -/

namespace EventStream.Http

structure Response where
  status : Nat
  body : String := ""
  deriving DecidableEq, Repr

def version : String := "0.1.0"

def health : String :=
  "\x7b\"status\":" ++ Json.quote "ok" ++ ",\"version\":" ++ Json.quote version ++ "\x7d"

/-! ### History -/

/-- A page of the history; events that make no message are left out and not counted. -/
def page (events : List Event) : String :=
  let messages := events.filterMap Message.ofEvent?
  "\x7b\"events\":[" ++ ",".intercalate (messages.map Message.text) ++
    "],\"count\":" ++ toString messages.length ++ "\x7d"

/-- At least 1 and at most 1000; 100 unless asked for. -/
def pageLimit (limit : Option Int) : Int := max 1 (min 1000 (limit.getD 100))

/-- The criteria of a query string: `since` in milliseconds, and `limit`. -/
def criteria? (query : List Char) : Option Log.Criteria := do
  let pairs := Form.pairs query
  let since ← Form.integer? "since" pairs
  let limit ← Form.integer? "limit" pairs
  let since ← match since with
    | some ms => (Instant.ofMillis? ms).map some
    | none => some none
  return { since, limit := some (pageLimit limit) }

def history (log : Log) (query : List Char) : Response :=
  match criteria? query with
  | none => { status := 400 }
  | some criteria =>
    match log.select criteria with
    | .ok events => { status := 200, body := page events }
    | .error _ => { status := 500 }

/-! ### Routing -/

/-- Whether a request can be made by that method: a token of letters, digits and some
marks. -/
def isMethod (method : String) : Bool :=
  method ≠ "" && method.toList.all fun c =>
    c.isAlphanum || "!#$%&'*+-.^_\x60|~".toList.contains c

/-- An answer to `GET`; `HEAD` gets it without the body. -/
def get (method : String) (response : Response) : Response :=
  if method = "GET" then response
  else if method = "HEAD" then { response with body := "" }
  else { status := 405 }

/-- Every `OPTIONS` request is taken for a preflight and granted. A request to the socket's
address that is no upgrade is refused. -/
def respond (log : Log) (method : String) (target : Target) : Response :=
  if method = "OPTIONS" then { status := 200 }
  else if target.path = "/health".toList then get method { status := 200, body := health }
  else if target.path = "/api/events".toList then get method (history log target.query)
  else if target.path = "/ws".toList then { status := if method = "GET" then 400 else 405 }
  else { status := 404 }

end EventStream.Http
