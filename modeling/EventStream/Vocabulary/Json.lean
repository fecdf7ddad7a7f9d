import EventStream.Json.Reader
import EventStream.Json.Value
import EventStream.Json.Writer
import EventStream.Vocabulary

/-! Kinds, labels and channels as JSON: written as a string, and read from a string or from
an object whose one member has that key and the value `null`. -/

namespace EventStream

/-- The name that a tree spells. -/
def Json.name? : Tree → Option String
  | .string pieces => text? pieces
  | .object [(key, .null)] => text? key
  | _ => none

def Kind.ofJson? (text : String) : Option Kind :=
  Json.document? text.toList >>= Json.name? >>= Kind.ofLabel?

def Kind.json (k : Kind) : String := Json.quote k.label

def Label.json (l : Label) : String := Json.quote l.text

def Channel.ofJson? (text : String) : Option Channel :=
  Json.document? text.toList >>= Json.name? >>= Channel.ofName?

def Channel.json (c : Channel) : String := Json.quote c.name

end EventStream
