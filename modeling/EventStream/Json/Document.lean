import EventStream.Json.Reader
import EventStream.Json.Value

/-! The meaning of whole documents. A document may embed others in its strings, and each of
them is read afresh. -/

namespace EventStream.Json

/-- Containers of one document nest at most so deep. -/
def maxDepth : Nat := 127

/-- The meaning of a document in which others are embedded fewer than `levels` deep. -/
def documentValueWithin? : (levels : Nat) → String → Option Value
  | 0, _ => none
  | levels + 1, text => do
    (← document? text.toList).valueWith? (documentValueWithin? levels) maxDepth

/-- The meaning of a document. What it embeds is shorter than its text, so that as many
levels as it has characters suffice. -/
def documentValue? (text : String) : Option Value := documentValueWithin? text.length text

def Tree.value? (depth : Nat) (t : Tree) : Option Value := t.valueWith? documentValue? depth

end EventStream.Json
