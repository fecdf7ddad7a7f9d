import EventStream.Database.BuiltIn

/-! The schema of a database: tables, views and indexes under one set of names, which are
compared without regard to the case of letters. Of the rows only the recorded migration
names are kept, which are the `name` column of their table. -/

namespace EventStream

structure Table where
  columns : List String
  /-- Whether `name` must be present and differ from row to row. -/
  uniqueNames : Bool := false
  /-- Whether rows are numbered, no number ever being given twice. -/
  isNumbered : Bool := false
  names : List (Option String) := []
  deriving DecidableEq

structure Database where
  tables : List (String × Table) := []
  views : List (String × List String) := []
  /-- Each index and its table. -/
  indexes : List (String × String) := []
  deriving DecidableEq

namespace Database

def sameName (a b : String) : Bool := a.toLower = b.toLower

def hasColumn (columns : List String) (name : String) : Bool := columns.any (sameName name)

def table? (db : Database) (name : String) : Option Table :=
  (db.tables.find? (sameName name ·.1)).map (·.2)

def hasView (db : Database) (name : String) : Bool := db.views.any (sameName name ·.1)

def hasIndex (db : Database) (name : String) : Bool := db.indexes.any (sameName name ·.1)

/-- Whether a table or a view has that name. -/
def hasRelation (db : Database) (name : String) : Bool :=
  db.tables.any (sameName name ·.1) || db.hasView name

/-- Names that start so belong to the database itself. -/
def isReserved (name : String) : Bool := name.toLower.startsWith "sqlite_"

/-- The table of the numbers given last, which comes with the first numbered table. -/
def sequence : String × Table := ("sqlite_sequence", { columns := ["name", "seq"] })

/-- The text of a statement ends at a NUL, so that none can hold such a name. -/
def isWritable (name : String) : Bool := !name.toList.contains '\x00'

/-- The most columns that a table may have. -/
def maxColumns : Nat := 2000

def distinctNames : List String → Bool
  | [] => true
  | c :: cs => !hasColumn cs c && distinctNames cs

def isFree (db : Database) (name : String) : Bool :=
  isWritable name && !db.hasRelation name && !db.hasIndex name && !isReserved name

def validColumns (columns : List String) : Bool :=
  columns ≠ [] && columns.length ≤ maxColumns && columns.all isWritable && distinctNames columns

/-! ### Statements -/

def addTable? (db : Database) (name : String) (t : Table) : Option Database :=
  if db.isFree name && validColumns t.columns then
    let isFirst := t.isNumbered && !db.hasRelation sequence.1
    some { db with tables := db.tables ++ (name, t) :: if isFirst then [sequence] else [] }
  else none

def createTable? (db : Database) (name : String) (columns : List String) : Option Database :=
  db.addTable? name { columns }

/-- A view of that name also counts as present. -/
def ensureTable? (db : Database) (name : String) (t : Table) : Option Database :=
  if db.hasRelation name then some db else db.addTable? name t

def createView? (db : Database) (name : String) (columns : List String) : Option Database :=
  if db.isFree name then some { db with views := db.views ++ [(name, columns)] } else none

/-- An index of that name also counts as present if it differs in the rest. -/
def ensureIndex? (db : Database) (name table : String) (columns : List String) :
    Option Database := do
  let t ← db.table? table
  if db.hasRelation name then none
  else if db.hasIndex name then some db
  else if columns.all (hasColumn t.columns) then
    some { db with indexes := db.indexes ++ [(name, table)] }
  else none

/-- A table goes with its rows and indexes. -/
def dropTable? (db : Database) (name : String) : Option Database :=
  if db.tables.any (sameName name ·.1) && !isReserved name then
    some { db with
      tables := db.tables.filter (!sameName name ·.1)
      indexes := db.indexes.filter (!sameName name ·.2) }
  else none

/-! ### Names in a table -/

def setNames (db : Database) (table : String) (names : List (Option String)) : Database :=
  { db with
    tables := db.tables.map fun (n, t) =>
      if sameName table n then (n, { t with names }) else (n, t) }

/-- The `name` column of a table. -/
def names? (db : Database) (table : String) : Option (List (Option String)) := do
  let t ← db.table? table
  if hasColumn t.columns "name" then some t.names else none

def insertName? (db : Database) (table : String) (name : Option String) : Option Database := do
  let t ← db.table? table
  let names ← db.names? table
  if t.uniqueNames && (name = none || names.contains name) then none
  else some (db.setNames table (names ++ [name]))

/-- The rows of that name go; tells how many they were. -/
def deleteName? (db : Database) (table name : String) : Option (Nat × Database) := do
  let names ← db.names? table
  let gone := names.filter (· = some name)
  return (gone.length, db.setNames table (names.filter (· ≠ some name)))

/-! ### Listings -/

def listed (names : List String) : List String :=
  (names.filter (!·.startsWith "sqlite_")).mergeSort (· ≤ ·)

/-- The `name` column of a table in ascending order, what is missing first. -/
def sortedNames? (db : Database) (table : String) : Option (List (Option String)) := do
  let names ← db.names? table
  return names.filter (·.isNone) ++ ((names.filterMap id).mergeSort (· ≤ ·)).map some

def tableNames (db : Database) : List String := listed (db.tables.map (·.1))

def indexNames (db : Database) : List String := listed (db.indexes.map (·.1))

/-- The columns of a table or a view that was created. -/
def created? (db : Database) (name : String) : Option (List String) :=
  match db.table? name with
  | some t => some t.columns
  | none => (db.views.find? (sameName name ·.1)).map (·.2)

/-- The columns of a table or a view, in order; what is created hides what is built in. They
cannot be listed any more when the table that lists them is hidden. -/
def columns? (db : Database) (name : String) : Option (List String) :=
  let name := String.ofList (name.toList.takeWhile (· ≠ '\x00'))
  if db.hasRelation columnLister then none
  else
    match db.created? name with
    | some columns => some columns
    | none =>
      if sameName name indexReader then none
      else some (((builtIn.find? (sameName name ·.1)).map (·.2)).getD [])

end Database

end EventStream
