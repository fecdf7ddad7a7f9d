import EventStream.Json.Tree

/-! JSON text of strings: only quotes, backslashes and control characters are escaped. -/

namespace EventStream.Json

open Numeral (hexChar nibble)

def escape (c : Char) : List Char :=
  match c with
  | '"' => ['\\', '"']
  | '\\' => ['\\', '\\']
  | '\x08' => ['\\', 'b']
  | '\x0c' => ['\\', 'f']
  | '\n' => ['\\', 'n']
  | '\r' => ['\\', 'r']
  | '\t' => ['\\', 't']
  | c =>
    if c.toNat < 32 then
      ['\\', 'u', '0', '0', hexChar (nibble (c.toNat / 16)), hexChar (nibble c.toNat)]
    else [c]

def quote (s : String) : String :=
  String.ofList ('"' :: s.toList.flatMap escape ++ ['"'])

/-- The text of an optional string, `null` when absent. -/
def quote? : Option String → String
  | some s => quote s
  | none => "null"

end EventStream.Json
