import Configurable.Text.Position

/-!
# What a TOML text says

The contents of a document as they are written: literals with the bytes they cover, and
tables that record how they came to be, by a header, by a longer header or by a dotted
key. Which of those it was decides what may be added to a table later.
-/

namespace Configurable.Toml

open Text (Span)

/-- A key, or one part of a dotted key. -/
structure Key where
  name : String
  span : Span
deriving DecidableEq, Repr

inductive Scalar where
  | integer (n : Int64)
  | float (x : Float)
  | boolean (b : Bool)
  | string (s : String)
  | datetime (text : String)
deriving Repr

/-- What stands after an equals sign. An inline table that only a dotted key made has no
text of its own, hence no span. -/
inductive Literal where
  | scalar (span : Span) (value : Scalar)
  | array (span : Span) (items : List Literal)
  | inline (span : Option Span) (entries : List (Key × Literal))

namespace Literal

/-- The name of the kind of value, as conflicts between keys give it. -/
def kind : Literal → String
  | .scalar _ (.integer _) => "integer"
  | .scalar _ (.float _) => "float"
  | .scalar _ (.boolean _) => "boolean"
  | .scalar _ (.string _) => "string"
  | .scalar _ (.datetime _) => "datetime"
  | .array _ _ => "array"
  | .inline _ _ => "inline table"

def span? : Literal → Option Span
  | .scalar span _ => some span
  | .array span _ => some span
  | .inline span _ => span

end Literal

/-- How a table came to be. The span of a header runs on to the end of the last value
written under it. -/
inductive Origin where
  | root
  | header (span : Span)
  | longerHeader
  | dottedKey
deriving DecidableEq, Repr

namespace Origin

/-- Made only on the way to something else. -/
def isImplied : Origin → Bool
  | .longerHeader | .dottedKey => true
  | .root | .header _ => false

def span? : Origin → Option Span
  | .header span => some span
  | _ => none

/-- After a value that ends at `stop` was written under the header. -/
def extendTo (stop : Nat) : Origin → Origin
  | .header span => .header ⟨span.start, stop⟩
  | origin => origin

end Origin

/-- A table over what it holds. -/
structure TableOf (α : Type) where
  origin : Origin
  entries : List (Key × α)

/-- What a key stands for: a literal, a table, or the tables of an array of tables. -/
inductive Item where
  | literal (value : Literal)
  | table (t : TableOf Item)
  | tables (ts : List (TableOf Item))

abbrev Table := TableOf Item

/-- Changes what a key stands for. A key that is not there yet comes last; a key that is
there keeps its place. -/
def alterEntry {α ε : Type} (key : Key) (f : Option α → Except ε α) :
    List (Key × α) → Except ε (List (Key × α))
  | [] => (f none).map fun a => [(key, a)]
  | (k, a) :: es =>
    if k.name = key.name then (f (some a)).map fun a' => (k, a') :: es
    else (alterEntry key f es).map ((k, a) :: ·)

end Configurable.Toml
