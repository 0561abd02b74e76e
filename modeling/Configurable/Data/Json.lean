import Configurable.Data.Basic
import Configurable.Number.FloatText

/-!
# Data as JSON

Every item and every entry stands on its own line, two spaces deeper than the container it
is in; an empty container is a pair of brackets. In strings only quotes, backslashes and
controls are escaped. A float that is not finite is `null`.
-/

namespace Configurable.Data

/-- Four hexadecimal digits, for a control. -/
def controlDigits (c : Char) : String :=
  let digits := Nat.toDigits 16 c.toNat
  String.ofList (List.replicate (4 - digits.length) '0' ++ digits)

def escapeJson (c : Char) : String :=
  match c with
  | '"' => "\\\""
  | '\\' => "\\\\"
  | '\x08' => "\\b"
  | '\t' => "\\t"
  | '\n' => "\\n"
  | '\x0C' => "\\f"
  | '\r' => "\\r"
  | c => if c.toNat < 0x20 then "\\u" ++ controlDigits c else c.toString

def quoteJson (s : String) : String := "\"" ++ String.join (s.toList.map escapeJson) ++ "\""

/-- A line break and the indentation of the next line. -/
def jsonBreak (depth : Nat) : String := "\n" ++ String.ofList (List.replicate (2 * depth) ' ')

/-- The parts of a container between its brackets, each on its own line. -/
def jsonLines (opening closing : String) (depth : Nat) (parts : List String) : String :=
  if parts.isEmpty then opening ++ closing
  else
    opening ++ jsonBreak (depth + 1) ++
      String.intercalate ("," ++ jsonBreak (depth + 1)) parts ++ jsonBreak depth ++ closing

mutual

/-- The JSON text of data that stands in `depth` containers. -/
def jsonAt (depth : Nat) : Data → String
  | .boolean b => if b then "true" else "false"
  | .integer n => toString n
  | .float x => (FloatText.marked? "+" x).getD "null"
  | .string s => quoteJson s
  | .list items => jsonLines "[" "]" depth (jsonItems (depth + 1) items)
  | .mapping entries => jsonLines "\x7b" "\x7d" depth (jsonEntries (depth + 1) entries)

def jsonItems (depth : Nat) : List Data → List String
  | [] => []
  | d :: ds => jsonAt depth d :: jsonItems depth ds

def jsonEntries (depth : Nat) : List (String × Data) → List String
  | [] => []
  | (key, d) :: es => (quoteJson key ++ ": " ++ jsonAt depth d) :: jsonEntries depth es

end

def json (d : Data) : String := jsonAt 0 d

end Configurable.Data
