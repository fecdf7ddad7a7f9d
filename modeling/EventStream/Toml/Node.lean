/-! TOML documents as trees. A table keeps how it came about, since that decides what may
still be put into it. -/

namespace EventStream.Toml

inductive Origin where
  /-- Opened by a header of its own. -/
  | header
  /-- Named on the way to a header's table. -/
  | implied
  /-- Named by a dotted key. -/
  | dotted
  /-- Written in braces. -/
  | braced
  /-- Named by a dotted key in braces. -/
  | bracedDotted
  deriving DecidableEq, Repr

/-- Of floating-point numbers and of dates and times only the kind is kept. -/
inductive Node where
  | string (value : String)
  | integer (value : Int)
  | boolean (value : Bool)
  | float
  | moment
  | array (items : List Node)
  | table (origin : Origin) (entries : List (String × Node))
  /-- Tables under headers in double brackets; the last one can still grow. -/
  | series (earlier : List (List (String × Node))) (last : List (String × Node))
  deriving Inhabited, Repr

abbrev Entries := List (String × Node)

/-- A dotted key: its last part, and the parts that lead there. -/
structure Key where
  path : List String
  name : String
  deriving DecidableEq, Repr

namespace Key

/-- A path of at least one part. -/
def ofParts? (parts : List String) : Option Key :=
  parts.getLast?.map fun name => ⟨parts.dropLast, name⟩

def parts (k : Key) : List String := k.path ++ [k.name]

end Key

namespace Entries

def put (entries : Entries) (name : String) (node : Node) : Entries :=
  (name, node) :: entries.filter (·.1 ≠ name)

/-- `f` carried out on the entries of the table at a path. Tables that are missing on the
way are made with the origin `made`; those present must be open to it. -/
def update? (made : Origin) (f : Origin → Entries → Option Entries) :
    List String → Origin → Entries → Option Entries
  | [], origin, entries => f origin entries
  | name :: path, _, entries =>
    match entries.lookup name with
    | none => (update? made f path made []).map fun sub => entries.put name (.table made sub)
    | some (.table origin sub) =>
      if isOpen origin then
        (update? made f path origin sub).map fun sub => entries.put name (.table origin sub)
      else none
    | some (.series earlier last) =>
      (update? made f path .header last).map fun last => entries.put name (.series earlier last)
    | some _ => none
where
  /-- Headers reach every table outside braces. Dotted keys reach no table that has been
  written out as a whole. -/
  isOpen (origin : Origin) : Bool :=
    match made with
    | .implied => origin = .header || origin = .implied || origin = .dotted
    | .dotted => origin = .implied || origin = .dotted
    | _ => origin = made

/-- Enters a value under a new key. A dotted key adds only to tables of dotted keys. -/
def assign? (made : Origin) (key : Key) (node : Node) : Origin → Entries → Option Entries :=
  update? made (fun origin entries =>
    if (key.path = [] ∨ origin = made) ∧ (entries.lookup key.name).isNone then
      some (entries.put key.name node)
    else none) key.path

/-- Opens the table of a header. It may have been named before, but not been filled. -/
def openTable? (key : Key) (entries : Entries) : Option Entries :=
  update? .implied (fun _ entries =>
    match entries.lookup key.name with
    | none => some (entries.put key.name (.table .header []))
    | some (.table .implied sub) => some (entries.put key.name (.table .header sub))
    | some _ => none) key.path .header entries

/-- Opens the next table of a series. -/
def openNext? (key : Key) (entries : Entries) : Option Entries :=
  update? .implied (fun _ entries =>
    match entries.lookup key.name with
    | none => some (entries.put key.name (.series [] []))
    | some (.series earlier last) =>
      some (entries.put key.name (.series (earlier ++ [last]) []))
    | some _ => none) key.path .header entries

/-- Enters a value under a key within the table that the header `current` opened. -/
def assignIn? (current : List String) (key : Key) (node : Node) (entries : Entries) :
    Option Entries :=
  update? .implied (assign? .dotted key node) current .header entries

end Entries

end EventStream.Toml
