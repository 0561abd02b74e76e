import Configurable.Toml.Failure

/-!
# Readers

A reader takes characters from the front of a text. It ends in one of three ways: it is
done, with a value and the rest of the text; it refuses the text, and another reader may
try; or it breaks off, which nothing behind it can mend. A failure keeps the position that
the reader had reached, so that where a text is refused depends on how far the last reader
got that tried it.
-/

namespace Configurable.Toml

open Text (Span byteLength)

/-- What is left of a text, and how many bytes of it have been read. -/
structure Cursor where
  position : Nat
  rest : List Char
deriving Repr

namespace Cursor

def ofText (text : String) : Cursor := ⟨0, text.toList⟩

/-- Behind the characters `taken`, with `rest` left. -/
def past (c : Cursor) (taken rest : List Char) : Cursor := ⟨c.position + byteLength taken, rest⟩

end Cursor

inductive Outcome (α : Type) where
  | done (value : α) (cursor : Cursor)
  | refused (failure : Failure)
  | broken (failure : Failure)

namespace Outcome

variable {α β : Type}

def mapFailure (f : Failure → Failure) : Outcome α → Outcome α
  | .done a c => .done a c
  | .refused e => .refused (f e)
  | .broken e => .broken (f e)

def map (f : α → β) : Outcome α → Outcome β
  | .done a c => .done (f a) c
  | .refused e => .refused e
  | .broken e => .broken e

end Outcome

def Reader (α : Type) : Type := Cursor → Outcome α

namespace Reader

variable {α β : Type}

instance : Monad Reader where
  pure a := fun c => .done a c
  bind r f := fun c =>
    match r c with
    | .done a c' => f a c'
    | .refused e => .refused e
    | .broken e => .broken e

/-! ## Characters -/

def refuse : Reader α := fun c => .refused (.bare c.position)

/-- Refuses a character that was just taken: behind its first byte, or at its start if it
has more bytes than that. -/
def refuseTaken (x : Char) : Reader α := fun c =>
  .refused (.bare (if x.utf8Size = 1 then c.position else c.position - x.utf8Size))

def position : Reader Nat := fun c => .done c.position c

/-- The characters that are left, none of them taken. -/
def upcoming : Reader (List Char) := fun c => .done c.rest c

/-- The next character, not taken. -/
def peek? : Reader (Option Char) := fun c => .done c.rest.head? c

def satisfying (p : Char → Bool) : Reader Char := fun c =>
  match c.rest with
  | x :: rest => if p x then .done x (c.past [x] rest) else .refused (.bare c.position)
  | [] => .refused (.bare c.position)

def char (x : Char) : Reader Char := satisfying (· == x)

def any : Reader Char := satisfying fun _ => true

/-- Exactly these characters. -/
def word (w : String) : Reader Unit := fun c =>
  if w.toList.isPrefixOf c.rest then
    .done () (c.past w.toList (c.rest.drop w.toList.length))
  else .refused (.bare c.position)

/-- As many characters of a class as there are. -/
def run (p : Char → Bool) : Reader (List Char) := fun c =>
  .done (c.rest.takeWhile p) (c.past (c.rest.takeWhile p) (c.rest.dropWhile p))

/-- As many characters of a class as there are, and at least one. -/
def run1 (p : Char → Bool) : Reader (List Char) := fun c =>
  if (c.rest.takeWhile p).isEmpty then .refused (.bare c.position) else run p c

/-- At most `n` characters of a class. -/
def upTo (n : Nat) (p : Char → Bool) : Reader (List Char) := fun c =>
  let taken := (c.rest.take n).takeWhile p
  .done taken (c.past taken (c.rest.drop taken.length))

/-- `n` characters of a class. -/
def exactly (n : Nat) (p : Char → Bool) : Reader (List Char) := fun c =>
  if ((c.rest.take n).takeWhile p).length = n then upTo n p c else .refused (.bare c.position)

def endOfText : Reader Unit := fun c =>
  if c.rest.isEmpty then .done () c else .refused (.bare c.position)

/-! ## Choice -/

/-- The second reader, if the first refuses. -/
def orElse (r : Reader α) (s : Reader α) : Reader α := fun c =>
  match r c with
  | .refused _ => s c
  | outcome => outcome

def optional (r : Reader α) : Reader (Option α) := fun c =>
  match r c with
  | .done a c' => .done (some a) c'
  | .refused _ => .done none c
  | .broken e => .broken e

/-- Nothing else is tried when this reader fails. -/
def commit (r : Reader α) : Reader α := fun c =>
  match r c with
  | .refused e => .broken e
  | outcome => outcome

/-- Whether the reader would be done here; nothing is taken. -/
def lookahead (r : Reader α) : Reader Unit := fun c =>
  match r c with
  | .done _ _ => .done () c
  | .refused e => .refused { e with position := c.position }
  | .broken e => .broken { e with position := c.position }

/-! ## What failures say -/

def within (label : Label) (r : Reader α) : Reader α := fun c =>
  (r c).mapFailure (Failure.within label)

def expecting (e : Expectation) (r : Reader α) : Reader α := fun c =>
  (r c).mapFailure (Failure.expecting e)

/-- Refuses, at the place where the reading began, a value that does not pass. -/
def checked (r : Reader α) (f : α → Except Cause β) : Reader β := fun c =>
  match r c with
  | .done a c' =>
    match f a with
    | .ok b => .done b c'
    | .error cause => .refused (.because c.position cause)
  | .refused e => .refused e
  | .broken e => .broken e

/-- Refuses, without a cause, a value that does not pass. -/
def verified (r : Reader α) (p : α → Bool) : Reader α := fun c =>
  match r c with
  | .done a c' => if p a then .done a c' else .refused (.bare c.position)
  | outcome => outcome

/-! ## Repetition

Every reader that is repeated takes at least one character, so there are no more rounds
than characters. -/

def manyFrom (r : Reader α) : Nat → Reader (List α)
  | 0, c => .done [] c
  | n + 1, c =>
    match r c with
    | .done a c' => (manyFrom r n c').map (a :: ·)
    | .refused _ => .done [] c
    | .broken e => .broken e

/-- The reader over and over, until it refuses. -/
def many (r : Reader α) : Reader (List α) := fun c => manyFrom r (c.rest.length + 1) c

def many1 (r : Reader α) : Reader (List α) := do
  let a ← r
  let as ← many r
  pure (a :: as)

/-- One or more, with a separator between them. A separator that nothing follows is left. -/
def separated1 (r : Reader α) (separator : Reader β) : Reader (List α) := do
  let a ← r
  let as ← many (do let _ ← separator; r)
  pure (a :: as)

def separated (r : Reader α) (separator : Reader β) : Reader (List α) := do
  pure ((← optional (separated1 r separator)).getD [])

/-- A state that the reader changes, until it refuses. -/
def iterateFrom (r : α → Reader α) : Nat → α → Reader α
  | 0, a, c => .done a c
  | n + 1, a, c =>
    match r a c with
    | .done a' c' => iterateFrom r n a' c'
    | .refused _ => .done a c
    | .broken e => .broken e

def iterate (r : α → Reader α) (a : α) : Reader α := fun c =>
  iterateFrom r (c.rest.length + 1) a c

/-- A value with the bytes it was read from. -/
def spanned (r : Reader α) : Reader (α × Span) := do
  let start ← position
  let a ← r
  let stop ← position
  pure (a, ⟨start, stop⟩)

/-! ## Blanks, lines and comments -/

def isSpace (c : Char) : Bool := c == ' ' || c == '\t'

/-- The characters of comments and of literal strings, quotes included: no control
characters, apart from the tab. -/
def isPrintable (c : Char) : Bool := c == '\t' || (0x20 ≤ c.toNat && c.toNat ≠ 0x7F)

def spaces : Reader Unit := do let _ ← run isSpace

/-- A line end. What is none is refused only after it was looked at. -/
def newline : Reader Unit := do
  match ← any with
  | '\n' => pure ()
  | '\r' => let _ ← char '\n'
  | x => refuseTaken x

def comment : Reader Unit := do
  let _ ← char '#'
  let _ ← run isPrintable

def lineEnd : Reader Unit := orElse newline endOfText

/-- The rest of a line behind a statement. -/
def lineRest : Reader Unit :=
  expecting (.text "#") <| expecting .newline do
    spaces
    let _ ← optional comment
    lineEnd

def blanksFrom : Nat → Reader Unit
  | 0 => pure ()
  | n + 1 => do
    spaces
    match ← peek? with
    | some '#' => do comment; newline; blanksFrom n
    | some '\n' | some '\r' => do newline; blanksFrom n
    | _ => pure ()

/-- Blanks, line ends and comments, a comment only with the end of its line. -/
def blanks : Reader Unit := fun c => blanksFrom (c.rest.length + 1) c

end Reader

end Configurable.Toml
