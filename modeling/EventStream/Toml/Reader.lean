import EventStream.Toml.Scalar

/-! A reader for TOML documents: values, statements, and the tables they fill. -/

namespace EventStream.Toml

mutual

/-- The value at the front of the text, whose containers nest at most `depth` deep. -/
def value? : (fuel depth : Nat) → List Char → Option (Node × List Char)
  | 0, _, _ => none
  | fuel + 1, depth, s =>
    match s with
    | '"' :: _ => (string? s).map fun (text, rest) => (.string text, rest)
    | '\'' :: _ => (string? s).map fun (text, rest) => (.string text, rest)
    | 't' :: 'r' :: 'u' :: 'e' :: rest => some (.boolean true, rest)
    | 'f' :: 'a' :: 'l' :: 's' :: 'e' :: rest => some (.boolean false, rest)
    | '[' :: rest =>
      match depth with
      | 0 => none
      | depth + 1 =>
        match skipVoid false rest with
        | ']' :: rest => some (.array [], rest)
        | s => (items? fuel depth s).map fun (items, rest) => (.array items, rest)
    | '{' :: rest =>
      match depth with
      | 0 => none
      | depth + 1 =>
        match skipBlanks rest with
        | '}' :: rest => some (.table .braced [], rest)
        | s => (pairs? fuel depth [] s).map fun (entries, rest) => (.table .braced entries, rest)
    | '0' :: 'x' :: rest => radix? 16 rest
    | '0' :: 'o' :: rest => radix? 8 rest
    | '0' :: 'b' :: rest => radix? 2 rest
    | s =>
      match moment? s with
      | some rest => some (.moment, rest)
      | none => number? s

/-- The items of an array from one item on, with the closing bracket. A comma may follow
the last item. -/
def items? : (fuel depth : Nat) → List Char → Option (List Node × List Char)
  | 0, _, _ => none
  | fuel + 1, depth, s => do
    let (item, s) ← value? fuel depth s
    match skipVoid false s with
    | ']' :: rest => return ([item], rest)
    | ',' :: rest =>
      match skipVoid false rest with
      | ']' :: rest => return ([item], rest)
      | s =>
        let (items, rest) ← items? fuel depth s
        return (item :: items, rest)
    | _ => none

/-- The entries of a table in braces from one pair on, added to `entries`, with the closing
brace. -/
def pairs? : (fuel depth : Nat) → Entries → List Char → Option (Entries × List Char)
  | 0, _, _, _ => none
  | fuel + 1, depth, entries, s => do
    let (key, s) ← key? s
    let '=' :: s := s | none
    let (node, s) ← value? fuel depth (skipBlanks s)
    let entries ← entries.assign? .bracedDotted key node .braced
    match skipBlanks s with
    | ',' :: rest => pairs? fuel depth entries rest
    | '}' :: rest => return (entries, rest)
    | _ => none

end

/-- The statements of a document, entered below the table that `current` opened. -/
def statements? : (fuel : Nat) → List String → Entries → List Char → Option Entries
  | 0, _, _, _ => none
  | fuel + 1, current, entries, s =>
    match skipBlanks s with
    | [] => some entries
    | '[' :: '[' :: s => do
      let (key, s) ← key? s
      let ']' :: ']' :: s := s | none
      statements? fuel key.parts (← entries.openNext? key) (← endOfLine? s)
    | '[' :: s => do
      let (key, s) ← key? s
      let ']' :: s := s | none
      statements? fuel key.parts (← entries.openTable? key) (← endOfLine? s)
    | s =>
      match endOfLine? s with
      | some s => statements? fuel current entries s
      | none => do
        let (key, s) ← key? s
        let '=' :: s := s | none
        let (node, s) ← value? (2 * s.length + 2) maxDepth (skipBlanks s)
        statements? fuel current (← entries.assignIn? current key node) (← endOfLine? s)

/-- The entries of a document; a byte order mark may stand in front. -/
def document? (text : String) : Option Entries :=
  let s := text.toList
  let s := if s.head? = some '\uFEFF' then s.tail else s
  statements? (s.length + 1) [] [] s

end EventStream.Toml
