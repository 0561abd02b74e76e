import Configurable.Toml.Reader

/-!
# Strings

The four forms of strings. Basic strings have escapes, literal strings have none; the
multiline forms span lines, drop a newline directly behind the opening quotes, and may
contain one or two quotes in a row, at the end as well.
-/

namespace Configurable.Toml.Quoted

open Reader

/-! ## Escapes -/

def isHexDigit (c : Char) : Bool :=
  c.isDigit || ('a' ≤ c && c ≤ 'f') || ('A' ≤ c && c ≤ 'F')

def hexValue (c : Char) : Nat :=
  if c.isDigit then c.toNat - '0'.toNat
  else if 'a' ≤ c then c.toNat - 'a'.toNat + 10
  else c.toNat - 'A'.toNat + 10

/-- The number a sequence of digits denotes in a base. -/
def natOfDigits (base : Nat) (cs : List Char) : Nat :=
  cs.foldl (fun n c => base * n + hexValue c) 0

/-- A character by its code point, written with `n` digits. -/
def codePoint (n : Nat) : Reader Char :=
  checked (verified (upTo n isHexDigit) (·.length == n)) fun digits =>
    let code := natOfDigits 16 digits
    if code.isValidChar then .ok (Char.ofNat code) else .error .outOfRange

/-- The one-character escapes with what they stand for, in the order in which they are
listed to a reader, which puts the two forms of code points before the last two. -/
def simpleEscapes : List (Char × Char) :=
  [('b', '\x08'), ('f', '\x0c'), ('n', '\n'), ('r', '\r'), ('t', '\t'), ('\\', '\\'), ('"', '"')]

def escapeLetters : List Char := ['b', 'f', 'n', 'r', 't', 'u', 'U', '\\', '"']

/-- The failure of an unknown escape names all that are known. -/
def unknownEscape (letter : Char) : Reader Char :=
  escapeLetters.foldl (fun r l => expecting (.text l.toString) r) <|
    within .escapeSequence (commit (refuseTaken letter))

def escape : Reader Char := do
  let _ ← char '\\'
  let letter ← any
  match simpleEscapes.lookup letter with
  | some meant => pure meant
  | none =>
    if letter = 'u' then within .shortUnicodeEscape (commit (codePoint 4))
    else if letter = 'U' then within .longUnicodeEscape (commit (codePoint 8))
    else unknownEscape letter

/-! ## Basic strings -/

/-- The characters that stand for themselves in basic strings. -/
def isPlain (c : Char) : Bool := isPrintable c && c != '"' && c != '\\'

def basicPart : Reader (List Char) := orElse (run1 isPlain) (do pure [← escape])

def basic : Reader String := do
  let _ ← char '"'
  let parts ← many basicPart
  let _ ← within .basicString (commit (char '"'))
  pure (String.ofList parts.flatten)

/-- Line ends and blanks, starting with a line end. -/
def blankLines : Reader Unit := do
  newline
  let _ ← many (orElse newline (do let _ ← run1 isSpace))

/-- A backslash at the end of a line, with the blanks and the line ends behind it. -/
def continuation : Reader (List Char) := do
  let _ ← many1 (do let _ ← char '\\'; spaces; blankLines)
  pure []

def multilineBasicPart : Reader (List Char) :=
  orElse (run1 isPlain) <| orElse continuation <| orElse (do pure [← escape]) do
    newline
    pure ['\n']

/-- One or two quotes, as many as leave something that `next` reads. -/
def quotesBefore (quote : Char) (next : Reader Unit) : Reader (List Char) :=
  let quotes := fun (n : Nat) => do
    word (String.ofList (List.replicate n quote))
    lookahead next
    pure (List.replicate n quote)
  orElse (quotes 2) (quotes 1)

/-- The inside of a multiline string: parts, with single and double quotes between them
and before the closing ones. `more` reads the parts behind quotes. -/
def multilineBody (quote : Char) (part : Reader (List Char))
    (more : Reader (List (List Char))) : Reader (List Char) := do
  let first ← many part
  let quoted ← many do
    let quotes ← quotesBefore quote (do let _ ← satisfying (· != quote))
    let parts ← more
    pure (quotes ++ parts.flatten)
  let last ← optional (quotesBefore quote (word (String.ofList (List.replicate 3 quote))))
  pure (first.flatten ++ quoted.flatten ++ last.getD [])

def multiline (label : Label) (quote : Char) (part : Reader (List Char))
    (more : Reader (List (List Char))) : Reader String :=
  let delimiter := word (String.ofList (List.replicate 3 quote))
  within label do
    delimiter
    let _ ← optional newline
    let body ← commit (multilineBody quote part more)
    commit delimiter
    pure (String.ofList body)

/-- Quotes that nothing legal follows still belong to the string, so the failure stands
behind them. -/
def multilineBasic : Reader String :=
  multiline .multilineBasicString '"' multilineBasicPart (many multilineBasicPart)

/-! ## Literal strings -/

def isLiteral (c : Char) : Bool := isPrintable c && c != '\''

def literal : Reader String := within .literalString do
  let _ ← char '\''
  let body ← run isLiteral
  let _ ← commit (char '\'')
  pure (String.ofList body)

def multilineLiteralPart : Reader (List Char) :=
  orElse (run1 isLiteral) do
    newline
    pure ['\n']

/-- Quotes that nothing legal follows are left, so the failure stands before them. -/
def multilineLiteral : Reader String :=
  multiline .multilineLiteralString '\'' multilineLiteralPart (many1 multilineLiteralPart)

def text : Reader String :=
  orElse multilineBasic <| orElse basic <| orElse multilineLiteral literal

end Configurable.Toml.Quoted
