import Configurable.ModuleId
import Configurable.Text.Alphabetic
import Configurable.Text.LineBreak
import Configurable.Text.Width

/-!
# Wrapping text

Text is filled into lines of a given number of columns, as many words to a line as fit.
Words end where a line may be broken, and after a hyphen between letters or digits; a word
that is too wide for a line is cut. Spaces at the end of a line are dropped.

Sequences that steer a terminal take no columns and are never cut.
-/

namespace Configurable.Text

/-! ## Terminal sequences -/

/-- Where a character stands with regard to the sequences that steer a terminal. -/
inductive Escape where
  | outside
  | started
  | control
  | command (last : Char)

/-- The state after a character, and whether the character is shown. -/
def Escape.step : Escape → Char → Escape × Bool
  | .outside, c => if c = '\x1B' then (.started, false) else (.outside, true)
  | .started, c =>
    if c = '[' then (.control, false)
    else if c = ']' then (.command c, false)
    else (.outside, false)
  | .control, c => if '@' ≤ c ∧ c ≤ '~' then (.outside, false) else (.control, false)
  | .command last, c =>
    if c = '\x07' ∨ (c = '\\' ∧ last = '\x1B') then (.outside, false) else (.command c, false)

/-- Every character with whether it is shown. -/
def marked (state : Escape) : List Char → List (Char × Bool)
  | [] => []
  | c :: cs =>
    let (state, shown) := state.step c
    (c, shown) :: marked state cs

def shownChars (cs : List Char) : List Char :=
  ((marked .outside cs).filter (·.2)).map (·.1)

/-- The columns that a text takes on a terminal. -/
def shownColumns (cs : List Char) : Nat := columnsOf (shownChars cs)

/-- Every character that is shown, with what is not shown before it. What is not shown at
the end stands alone. -/
def shownUnits : List (Char × Bool) → List (List Char)
  | [] => []
  | (c, true) :: cs => [c] :: shownUnits cs
  | (c, false) :: cs =>
    match shownUnits cs with
    | [] => [[c]]
    | unit :: units => (c :: unit) :: units

/-! ## Words -/

/-- A word and the spaces after it. -/
structure Word where
  text : List Char
  spaces : List Char
deriving DecidableEq, Repr

namespace Word

def width (w : Word) : Nat := shownColumns w.text

/-- Text with the spaces at its end taken apart. -/
def ofText (cs : List Char) : Word :=
  let spaces := cs.reverse.takeWhile (· == ' ')
  ⟨cs.take (cs.length - spaces.length), spaces⟩

end Word

/-- Hyphens, also those that are only shown at the end of a line, make no word end. -/
def isHyphen (c : Char) : Bool := c == '-' || c == '\xAD'

/-- Without the last of the breaks that are allowed. -/
def withoutLastBreak (breaks : List Bool) : List Bool :=
  let fromLast := breaks.reverse
  (fromLast.takeWhile (!·) ++ (fromLast.dropWhile (!·)).set 0 false).reverse

/-- The breaks that end words, given for every character before which they are. The end of
the text counts as the last of the breaks and ends its last word anyway; a text that ends in
a hyphen has one word end less instead. -/
def wordBreaks (cs : List Char) : List Bool :=
  let precededByHyphen := false :: cs.map isHyphen
  let breaks := (breaksBefore cs).zipWith (fun allowed hyphen => allowed && !hyphen)
    precededByHyphen
  if cs.getLast?.any isHyphen then withoutLastBreak breaks else breaks

/-- Groups units, a new group starting wherever there is a break. -/
def groupUnits : List (List Char) → List Bool → List (List Char)
  | [], _ => []
  | unit :: units, breaks =>
    match groupUnits units (breaks.drop 1) with
    | [] => [unit]
    | group :: groups =>
      if ((breaks.drop 1).head?).getD false then unit :: group :: groups
      else (unit ++ group) :: groups

/-- The words of a line. -/
def wordsOf (line : List Char) : List Word :=
  let units := shownUnits (marked .outside line)
  (groupUnits units (wordBreaks (shownChars line))).map Word.ofText

/-- The parts of a word, which end after hyphens between letters or digits. `before` is the
character before the text. -/
def hyphenated (before : Option Char) : List Char → List (List Char)
  | [] => [[]]
  | c :: cs =>
    let isEnd := c == '-' && before.any isAlphanumeric && cs.head?.any isAlphanumeric
    match hyphenated (some c) cs with
    | [] => [[c]]
    | part :: parts => if isEnd then [c] :: part :: parts else (c :: part) :: parts

/-- Cuts text before every character that is too wide for the columns left. -/
def cutAt (columns : Nat) (width : Nat) : List (Char × Bool) → List (List Char)
  | [] => [[]]
  | (c, shown) :: cs =>
    let taken := if shown then Text.columns c else 0
    let isCut := shown && 0 < width && columns < width + taken
    match cutAt columns (if isCut then taken else width + taken) cs with
    | [] => [[c]]
    | part :: parts => if isCut then [] :: (c :: part) :: parts else (c :: part) :: parts

/-- Parts of a word, of which the last has its spaces. -/
def Word.ofParts (spaces : List Char) : List (List Char) → List Word
  | [] => []
  | [part] => [⟨part, spaces⟩]
  | part :: parts => ⟨part, []⟩ :: Word.ofParts spaces parts

/-- The word, or its parts if it is too wide for a line. -/
def Word.fitted (columns : Nat) (w : Word) : List Word :=
  if columns < w.width then Word.ofParts w.spaces (cutAt columns 0 (marked .outside w.text))
  else [w]

/-! ## Lines -/

/-- Words on lines, each line as long as it can be. `line` holds the words of the current
line, the last first, and `used` its columns with the spaces. -/
def fillLines (columns used : Nat) (line : List Word) : List Word → List (List Word)
  | [] => [line.reverse]
  | w :: ws =>
    let advance := w.width + w.spaces.length
    if columns < used + w.width && !line.isEmpty then
      line.reverse :: fillLines columns advance [w] ws
    else fillLines columns (used + advance) (w :: line) ws

/-- The text of a line, without the spaces after its last word. -/
def lineText : List Word → List Char
  | [] => []
  | [w] => w.text
  | w :: ws => w.text ++ w.spaces ++ lineText ws

/-- A line of text as lines of so many columns, at least one. -/
def wrapLine (columns : Nat) (line : List Char) : List (List Char) :=
  let parts := (wordsOf line).flatMap fun w => Word.ofParts w.spaces (hyphenated none w.text)
  (fillLines columns 0 [] (parts.flatMap (Word.fitted columns))).map lineText

/-- Text as lines of so many columns. -/
def wrap (columns : Nat) (text : String) : List String :=
  ((splitOn '\n' text.toList).flatMap (wrapLine columns)).map String.ofList

end Configurable.Text
