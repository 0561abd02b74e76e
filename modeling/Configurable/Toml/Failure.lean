import Configurable.Text.Position

/-!
# Why a text is refused

A failure to read a text has a position, and says what was being read, what could have
stood there, and what is wrong with what did. The message has up to three lines, one for
each of these.
-/

namespace Configurable.Toml

/-- What was being read. -/
inductive Label where
  | key | tableHeader | array | inlineTable | string
  | basicString | multilineBasicString | literalString | multilineLiteralString
  | escapeSequence | shortUnicodeEscape | longUnicodeEscape
  | integer | hexInteger | octalInteger | binaryInteger | float
  | dateTime | time | timeOffset
deriving DecidableEq, Repr

def Label.name : Label → String
  | .key => "key"
  | .tableHeader => "table header"
  | .array => "array"
  | .inlineTable => "inline table"
  | .string => "string"
  | .basicString => "basic string"
  | .multilineBasicString => "multiline basic string"
  | .literalString => "literal string"
  | .multilineLiteralString => "multiline literal string"
  | .escapeSequence => "escape sequence"
  | .shortUnicodeEscape => "unicode 4-digit hex code"
  | .longUnicodeEscape => "unicode 8-digit hex code"
  | .integer => "integer"
  | .hexInteger => "hexadecimal integer"
  | .octalInteger => "octal integer"
  | .binaryInteger => "binary integer"
  | .float => "floating-point number"
  | .dateTime => "date-time"
  | .time => "time"
  | .timeOffset => "time offset"

/-- What could have stood there. -/
inductive Expectation where
  | text (s : String)
  | newline
  | digit
  | leadingDigit
deriving DecidableEq, Repr

def Expectation.name : Expectation → String
  | .text s => "`" ++ s ++ "`"
  | .newline => "newline"
  | .digit => "digit"
  | .leadingDigit => "leading digit"

/-- What is wrong with a text that is well formed in itself. The path of a duplicate key's
table is given where the text names the table. -/
inductive Cause where
  | outOfRange
  | tooDeep
  | numberTooLarge
  | numberTooSmall
  | duplicateKey (key : String) (table : Option (List String))
  | notATable (path : List String) (kind : String)
deriving DecidableEq, Repr

def Cause.message : Cause → String
  | .outOfRange => "value is out of range"
  | .tooDeep => "recursion limit exceeded"
  | .numberTooLarge => "number too large to fit in target type"
  | .numberTooSmall => "number too small to fit in target type"
  | .duplicateKey key none => "duplicate key `" ++ key ++ "`"
  | .duplicateKey key (some []) => "duplicate key `" ++ key ++ "` in document root"
  | .duplicateKey key (some path) =>
    "duplicate key `" ++ key ++ "` in table `" ++ String.intercalate "." path ++ "`"
  | .notATable path kind =>
    "dotted key `" ++ String.intercalate "." path ++
      "` attempted to extend non-table type (" ++ kind ++ ")"

structure Failure where
  position : Nat
  label : Option Label
  expected : List Expectation
  cause : Option Cause
deriving DecidableEq, Repr

namespace Failure

/-- A failure of which nothing is known yet. -/
def bare (position : Nat) : Failure := ⟨position, none, [], none⟩

def because (position : Nat) (cause : Cause) : Failure := ⟨position, none, [], some cause⟩

/-- Says what was being read, unless something more particular is known. -/
def within (label : Label) (f : Failure) : Failure := { f with label := f.label.or (some label) }

def expecting (e : Expectation) (f : Failure) : Failure := { f with expected := f.expected ++ [e] }

def message (f : Failure) : String :=
  let labelled := f.label.toList.map fun l => "invalid " ++ l.name
  let expected :=
    if f.expected.isEmpty then []
    else ["expected " ++ String.intercalate ", " (f.expected.map Expectation.name)]
  let cause := f.cause.toList.map Cause.message
  String.intercalate "\n" (labelled ++ expected ++ cause)

end Failure

end Configurable.Toml
