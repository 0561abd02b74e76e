import Configurable.Data.Basic
import Configurable.Number.FloatText
import Configurable.Text.Position

/-!
# Data as YAML

Containers are written in blocks: mappings two spaces deeper than what they are in, lists in
a mapping at the depth of their key. An empty container is a pair of brackets.

A string is written in the simplest style that reads back as the string. Plain is for text
that reads as nothing else and has none of the characters that mean something where they
stand; single quotes are for other text on one line; a literal block is for text on several
lines. Characters that cannot be seen, and blanks that would be lost at the end of a line,
need double quotes with escapes.
-/

namespace Configurable.Data.Yaml

/-! ## What plain text reads as -/

def isNull (s : String) : Bool := ["", "null", "Null", "NULL", "~"].contains s

def isBoolean (s : String) : Bool :=
  ["true", "True", "TRUE", "false", "False", "FALSE"].contains s

/-- Without the first of these marks if the text starts with it. -/
def dropMark (mark : List Char) (cs : List Char) : Option (List Char) :=
  if mark.isPrefixOf cs then some (cs.drop mark.length) else none

def dropPlus (cs : List Char) : List Char := (dropMark ['+'] cs).getD cs

def isSign (c : Char) : Bool := c == '+' || c == '-'

/-- Digits after a zero, with or without a sign, which are no number. -/
def isZeroLed (s : String) : Bool :=
  let cs := s.toList
  let unsigned := if cs.head?.any isSign then cs.drop 1 else cs
  match unsigned with
  | '0' :: c :: cs => (c :: cs).all Char.isDigit
  | _ => false

/-- What a digit stands for, in bases up to sixteen. -/
def digitValue? (base : Nat) (c : Char) : Option Nat :=
  let value :=
    if c.isDigit then some (c.toNat - '0'.toNat)
    else if 'a' ≤ c ∧ c ≤ 'f' then some (c.toNat - 'a'.toNat + 10)
    else if 'A' ≤ c ∧ c ≤ 'F' then some (c.toNat - 'A'.toNat + 10)
    else none
  value.filter (· < base)

/-- The number that at least one digit and nothing else denotes. -/
def numeral? (base : Nat) (cs : List Char) : Option Nat :=
  if cs.isEmpty then none
  else cs.foldlM (fun n c => (digitValue? base c).map (base * n + ·)) 0

/-- The number that digits after the mark of their base denote. -/
def basedNumeral? (cs : List Char) : Option Nat :=
  [(16, ['0', 'x']), (8, ['0', 'o']), (2, ['0', 'b'])].findSome? fun (base, mark) =>
    (dropMark mark cs).bind (numeral? base)

/-- An integer of at most 128 bits, decimal or with a mark of its base. -/
def isInteger (s : String) : Bool :=
  let cs := s.toList
  let unsigned := if cs.head?.any isSign then cs.drop 1 else cs
  let decimal := if isZeroLed s then none else numeral? 10 unsigned
  ((basedNumeral? unsigned).or decimal).any fun n =>
    if cs.head? = some '-' then n ≤ twoTo 127 else n < twoTo 128

/-- A finite decimal, or an infinity or NaN with its point. -/
def isFloat (s : String) : Bool :=
  let unplussed := dropPlus s.toList
  if s.toList.head? = some '+' ∧ unplussed.head?.any isSign then false
  else if [".inf", ".Inf", ".INF"].contains (String.ofList unplussed) then true
  else if ["-.inf", "-.Inf", "-.INF", ".nan", ".NaN", ".NAN"].contains s then true
  else
    let value := FloatText.parse? (String.ofList unplussed)
    (value.bind (FloatText.marked? "")).isSome && !isZeroLed s

/-- Whether plain text would be read as something else than a string, or might be. -/
def isOtherThanString (s : String) : Bool :=
  isNull s || isBoolean s || isInteger s || isZeroLed s || isFloat s

/-! ## Characters -/

def isBreak (c : Char) : Bool :=
  c == '\n' || c == '\r' || c == '\x85' || c == '\u2028' || c == '\u2029'

/-- Characters that every reader is to see as they are. -/
def isPrintable (c : Char) : Bool :=
  let n := c.toNat
  n == 0x0A || (0x20 ≤ n && n ≤ 0x7E) ||
    (0xA0 ≤ n && n != 0xFEFF && n != 0xFFFE && n != 0xFFFF)

/-- What separates words on a line, or ends it. -/
def isGap (c : Char) : Bool := c == ' ' || c == '\t' || isBreak c

/-- Characters that mean something at the start of a text. -/
def isIndicator (c : Char) : Bool := "#,[]\x7b\x7d&*!|>'\"%@\x60".toList.contains c

/-! ## Styles -/

/-- Whether the first of two characters in a row makes a key, and the second a comment. -/
def hasMark : List Char → Bool
  | [] => false
  | [c] => c == ':'
  | c :: d :: cs => (c == ':' && isGap d) || (isGap c && d == '#') || hasMark (d :: cs)

/-- Whether the start of a text means something. -/
def startsMarked : List Char → Bool
  | [] => false
  | c :: cs =>
    isIndicator c || ((c == '?' || c == ':' || c == '-') && (cs.head?.map isGap).getD true) ||
      ['-', '-', '-'].isPrefixOf (c :: cs) || ['.', '.', '.'].isPrefixOf (c :: cs)

/-- Whether a character that `first` holds of stands right before one that `second` does. -/
def hasPair (first second : Char → Bool) (cs : List Char) : Bool :=
  (cs.zip (cs.drop 1)).any fun (c, d) => first c && second d

def isSpace (c : Char) : Bool := c == ' '

/-- Characters or blanks that would be lost in any style but the escaped one. -/
def needsEscapes (cs : List Char) : Bool :=
  cs.any (!isPrintable ·) || hasPair isSpace isBreak cs

def allowsPlain (cs : List Char) : Bool :=
  !needsEscapes cs && !cs.any isBreak && !startsMarked cs && !hasMark cs &&
    !cs.head?.any isSpace && !cs.getLast?.any isSpace

def allowsQuotes (cs : List Char) : Bool := !needsEscapes cs && !hasPair isBreak isSpace cs

def allowsBlock (cs : List Char) : Bool := !needsEscapes cs && !cs.getLast?.any isSpace

inductive Style where
  | plain
  | quoted
  | escaped
  | block
deriving DecidableEq, Repr

def quotedOrEscaped (cs : List Char) : Style := if allowsQuotes cs then .quoted else .escaped

/-- The style of a string. A block cannot stand before the colon of a key on its line. -/
def styleOf (inKey : Bool) (s : String) : Style :=
  let cs := s.toList
  if cs.contains '\n' then if allowsBlock cs && !inKey then .block else .escaped
  else if isOtherThanString s || !allowsPlain cs then quotedOrEscaped cs
  else .plain

/-! ## Writing strings -/

def spaces (n : Nat) : String := String.ofList (List.replicate n ' ')

/-- Text whose lines start at a column. What ends a line is kept. -/
def indented (column : Nat) : (startOfLine : Bool) → List Char → String
  | _, [] => ""
  | startOfLine, c :: cs =>
    if isBreak c then c.toString ++ indented column true cs
    else (if startOfLine then spaces column else "") ++ c.toString ++ indented column false cs

def endsInBreak (cs : List Char) : Bool := cs.getLast?.any isBreak

def quotedText (column : Nat) (cs : List Char) : String :=
  let doubled := cs.flatMap fun c => if c == '\'' then [c, c] else [c]
  "'" ++ indented column false doubled ++ (if endsInBreak cs then spaces column else "") ++ "'"

def hexDigits (width : Nat) (n : Nat) : String :=
  let digits := (Nat.toDigits 16 n).map Char.toUpper
  String.ofList (List.replicate (width - digits.length) '0' ++ digits)

def escape (c : Char) : String :=
  match c with
  | '\x00' => "\\0"
  | '\x07' => "\\a"
  | '\x08' => "\\b"
  | '\t' => "\\t"
  | '\n' => "\\n"
  | '\x0B' => "\\v"
  | '\x0C' => "\\f"
  | '\r' => "\\r"
  | '\x1B' => "\\e"
  | '"' => "\\\""
  | '\\' => "\\\\"
  | '\x85' => "\\N"
  | '\u2028' => "\\L"
  | '\u2029' => "\\P"
  | c =>
    if isPrintable c then c.toString
    else if c.toNat ≤ 0xFF then "\\x" ++ hexDigits 2 c.toNat
    else if c.toNat ≤ 0xFFFF then "\\u" ++ hexDigits 4 c.toNat
    else "\\U" ++ hexDigits 8 c.toNat

def escapedText (cs : List Char) : String := "\"" ++ String.join (cs.map escape) ++ "\""

/-- What becomes of the breaks at the end of a block: one is kept by default. -/
def chomping (cs : List Char) : String :=
  match cs.reverse with
  | [] => "-"
  | [c] => if isBreak c then "+" else "-"
  | c :: d :: _ => if !isBreak c then "-" else if isBreak d then "+" else ""

/-- A literal block. Its indentation is said where the text does not show it. -/
def blockText (column : Nat) (cs : List Char) : String :=
  let hint := if cs.head?.any fun c => isSpace c || isBreak c then "2" else ""
  "|" ++ hint ++ chomping cs ++ "\n" ++ indented column true cs

/-- A string with the end of its line; lines after the first start at a column. -/
def line (column : Nat) (s : String) : String :=
  let cs := s.toList
  match styleOf false s with
  | .plain => s ++ "\n"
  | .quoted => quotedText column cs ++ "\n"
  | .escaped => escapedText cs ++ "\n"
  | .block => blockText column cs ++ (if endsInBreak cs then "" else "\n")

/-- Whether a key can stand on one line with its colon. -/
def isShortKey (key : String) : Bool := !key.toList.any isBreak && key.utf8ByteSize ≤ 128

/-- A key on one line. -/
def keyText (key : String) : String :=
  match styleOf true key with
  | .plain | .block => key
  | .quoted => quotedText 0 key.toList
  | .escaped => escapedText key.toList

/-! ## Writing data -/

def floatText (x : Float) : String :=
  match Binary64.classify x with
  | .nan => ".nan"
  | .infinite negative => if negative then "-.inf" else ".inf"
  | .finite _ _ _ => (FloatText.marked? "" x).getD ""

/-- A scalar on its line; lines after the first start at a column. What is no scalar is
written so only if it is empty. -/
def flatLine (column : Nat) : Data → String
  | .boolean b => if b then "true\n" else "false\n"
  | .integer n => toString n ++ "\n"
  | .float x => floatText x ++ "\n"
  | .string s => line column s
  | .list _ => "[]\n"
  | .mapping _ => "\x7b\x7d\n"

/-- Whether the data has parts to write on lines of their own. -/
def isBlock : Data → Bool
  | .list items => !items.isEmpty
  | .mapping entries => !entries.isEmpty
  | _ => false

/-- Parts that start at a column, each of them ending its last line. -/
def block (column : Nat) (parts : List String) : String :=
  String.join (parts.map (spaces column ++ ·))

/-- What stands on the line of an indicator: parts, the first of them there and the others
at a column, or else a scalar. -/
def besideIndicator (column : Nat) (d : Data) (parts : List String) : String :=
  " " ++ if isBlock d then String.intercalate (spaces column) parts else flatLine column d

/-- What stands behind the colon of a key at a column: parts on the lines below, or else a
scalar. -/
def belowKey (column partColumn : Nat) (d : Data) (parts : List String) : String :=
  if isBlock d then "\n" ++ block partColumn parts else " " ++ flatLine (column + 2) d

/-- A list stands at the column of its key, a mapping two columns further on. -/
def partColumn (column : Nat) : Data → Nat
  | .list _ => column
  | _ => column + 2

mutual

/-- The parts of data at a column: the items of a list, or the entries of a mapping. -/
def partTexts (column : Nat) : Data → List String
  | .list items => itemTexts column items
  | .mapping entries => entryTexts column entries
  | _ => []

/-- Items behind dashes. -/
def itemTexts (column : Nat) : List Data → List String
  | [] => []
  | d :: ds =>
    ("-" ++ besideIndicator (column + 2) d (partTexts (column + 2) d)) :: itemTexts column ds

/-- Values behind their keys. A key that cannot stand before a colon has a line of its own,
behind a question mark. -/
def entryTexts (column : Nat) : List (String × Data) → List String
  | [] => []
  | (key, d) :: es =>
    let inner := partColumn column d
    (if isShortKey key then keyText key ++ ":" ++ belowKey column inner d (partTexts inner d)
      else
        "? " ++ line (column + 2) key ++ spaces column ++ ":" ++
          besideIndicator (column + 2) d (partTexts (column + 2) d)) :: entryTexts column es

end

end Yaml

/-- The YAML text of a document. -/
def yaml (d : Data) : String :=
  if Yaml.isBlock d then Yaml.block 0 (Yaml.partTexts 0 d) else Yaml.flatLine 2 d

end Configurable.Data
