import Configurable.Text.BreakClass
import Configurable.Text.Width

/-!
# Where a line may be broken

The Unicode line breaking rules. A mark belongs to the character before it, and the two are
a unit that has the class of that character. Between two units the first rule that applies
decides; where none does, a break is allowed. The rules look at the units on both sides, at
the last one before that is no space, and at little more.
-/

namespace Configurable.Text

open BreakClass

/-! ## Units -/

/-- A character with the marks that belong to it. -/
structure BreakUnit where
  kind : BreakClass
  /-- The character is one of East Asian writing. -/
  eastAsian : Bool
  /-- The last of the marks is a joiner. -/
  joins : Bool
  /-- The number of marks. -/
  marks : Nat
deriving DecidableEq, Repr

namespace BreakUnit

def isHardBreak : BreakClass → Bool
  | mandatory | carriageReturn | lineFeed | nextLine => true
  | _ => false

def isMark : BreakClass → Bool
  | combiningMark | joiner => true
  | _ => false

/-- Whether a mark belongs to a character of this class before it. -/
def takesMarks : BreakClass → Bool
  | space | zeroWidthSpace => false
  | c => !isHardBreak c

/-- Marks that belong to no character: the first of them is a letter with the others. -/
def ofMarks : List BreakClass → List BreakUnit
  | [] => []
  | m :: ms => [⟨alphabetic, false, (m :: ms).getLast? == some joiner, ms.length⟩]

/-- Puts a character before units, the first of which have marks before them. -/
def cons (c : Char) : List BreakClass × List BreakUnit → List BreakClass × List BreakUnit
  | (marks, units) =>
    let kind := BreakClass.ofChar c
    if isMark kind then (kind :: marks, units)
    else if takesMarks kind then
      ([], ⟨kind, isEastAsian c, marks.getLast? == some joiner, marks.length⟩ :: units)
    else ([], ⟨kind, isEastAsian c, false, 0⟩ :: (ofMarks marks ++ units))

/-- The units of a text. -/
def ofText (cs : List Char) : List BreakUnit :=
  let (marks, units) := cs.foldr cons ([], [])
  ofMarks marks ++ units

/-! ## Kinds of units -/

def isLetter : BreakClass → Bool
  | alphabetic | hebrewLetter => true
  | _ => false

def isHangul : BreakClass → Bool
  | hangulLeading | hangulVowel | hangulTrailing | hangulPair | hangulTriple => true
  | _ => false

def isIdeograph : BreakClass → Bool
  | ideographic | emojiBase | emojiModifier => true
  | _ => false

def isQuotation : BreakClass → Bool
  | initialQuotation | finalQuotation | quotation => true
  | _ => false

def isClosing : BreakClass → Bool
  | closePunctuation | closeParenthesis => true
  | _ => false

/-- The signs at numbers. -/
def isCurrency : BreakClass → Bool
  | numericLeader | numericTrailer => true
  | _ => false

/-- Behind these, or at the start of a text, a quotation begins. -/
def beginsQuotation : BreakClass → Bool
  | openPunctuation | glue | space | zeroWidthSpace => true
  | c => isHardBreak c || isQuotation c

/-- Before these, or at the end of a text, a quotation ends. -/
def endsQuotation : BreakClass → Bool
  | space | glue | wordJoiner | exclamation | numericSeparator | symbol | zeroWidthSpace => true
  | c => isHardBreak c || isQuotation c || isClosing c

end BreakUnit

/-! ## Rules -/

/-- What the rules look at in the text before a place. -/
structure BreakContext where
  /-- The unit before. -/
  last : BreakUnit
  /-- The class of the last unit that is no space. -/
  core : BreakClass
  /-- That unit is a mark that opens a quotation. -/
  opensQuotation : Bool
  /-- The unit before is a hyphen, and the one before that a Hebrew letter. -/
  hebrewHyphen : Bool
  /-- The number of regional indicators in a row is odd. -/
  oddRegionals : Bool

namespace BreakContext

open BreakUnit

/-- What is not to be torn from what follows it, or from what precedes it. -/
def isBound (last next : BreakClass) : Bool :=
  last == wordJoiner || next == wordJoiner || last == glue ||
    (next == glue && last != space && last != breakAfter && last != hyphen)

/-- Punctuation that never starts a line. -/
def neverStarts (next : BreakClass) : Bool :=
  isClosing next || next == exclamation || next == numericSeparator || next == symbol

/-- The marks of a quotation stay at what they enclose, even with spaces between them. -/
def isEnclosed (s : BreakContext) (next : BreakUnit) (rest : List BreakUnit) : Bool :=
  s.opensQuotation ||
    (next.kind == finalQuotation && (rest.head?.map (endsQuotation ·.kind)).getD true)

/-- Pairs that stay together even with spaces between them. -/
def isPunctuationPair (core next : BreakClass) : Bool :=
  core == openPunctuation || (isClosing core && next == nonstarter) ||
    (core == breakBoth && next == breakBoth)

/-- What goes together in numbers. -/
def isNumericPair (last next : BreakClass) : Bool :=
  match next with
  | numericTrailer | numericLeader => last == numeric || isClosing last
  | numeric =>
    last == numeric || isCurrency last || last == hyphen || last == numericSeparator ||
      last == symbol
  | openPunctuation => isCurrency last
  | _ => false

/-- What goes together in words, and words with the signs at them. -/
def isWordPair (last next : BreakUnit) : Bool :=
  (isLetter last.kind && (isLetter next.kind || next.kind == numeric)) ||
    (last.kind == numeric && isLetter next.kind) ||
    (isCurrency last.kind && isLetter next.kind) || (isLetter last.kind && isCurrency next.kind) ||
    (last.kind == numericSeparator && isLetter next.kind) ||
    ((isLetter last.kind || last.kind == numeric) && next.kind == openPunctuation &&
      !next.eastAsian) ||
    (last.kind == closeParenthesis && (isLetter next.kind || next.kind == numeric)) ||
    (last.kind == symbol && next.kind == hebrewLetter)

/-- What goes together among ideographs, syllables and emoji. -/
def isSyllablePair (last next : BreakClass) : Bool :=
  (last == numericLeader && (isIdeograph next || isHangul next)) ||
    ((isIdeograph last || isHangul last) && next == numericTrailer) ||
    (last == emojiBase && next == emojiModifier) ||
    match last, next with
    | hangulLeading, hangulLeading | hangulLeading, hangulVowel
    | hangulLeading, hangulPair | hangulLeading, hangulTriple
    | hangulVowel, hangulVowel | hangulVowel, hangulTrailing
    | hangulPair, hangulVowel | hangulPair, hangulTrailing
    | hangulTrailing, hangulTrailing | hangulTriple, hangulTrailing => true
    | _, _ => false

/-- Whether a line may end before the unit `next`, which `rest` follows. -/
def allows (s : BreakContext) (next : BreakUnit) (rest : List BreakUnit) : Bool :=
  let last := s.last.kind
  let kind := next.kind
  if last == carriageReturn && kind == lineFeed then false
  else if isHardBreak last then true
  else if isHardBreak kind || kind == space || kind == zeroWidthSpace then false
  else if s.core == zeroWidthSpace then true
  else if s.last.joins then false
  else if isBound last kind || neverStarts kind || isPunctuationPair s.core kind then false
  else if s.isEnclosed next rest then false
  else if last == space then true
  else if isQuotation last || isQuotation kind then false
  else if last == contingent || kind == contingent then true
  else
    !(kind == breakAfter || kind == hyphen || kind == nonstarter || last == breakBefore ||
      s.hebrewHyphen || kind == inseparable || isNumericPair last kind ||
      isWordPair s.last next || isSyllablePair last kind ||
      (s.oddRegionals && kind == regionalIndicator))

/-- The context after a unit, given the context before it unless the text starts with it. -/
def after (s : Option BreakContext) (next : BreakUnit) : BreakContext where
  last := next
  core := if next.kind == space then (s.map (·.core)).getD space else next.kind
  opensQuotation :=
    if next.kind == space then s.any (·.opensQuotation)
    else next.kind == initialQuotation && (s.map (beginsQuotation ·.last.kind)).getD true
  hebrewHyphen :=
    s.any (·.last.kind == hebrewLetter) && (next.kind == hyphen || next.kind == breakAfter)
  oddRegionals := next.kind == regionalIndicator && !(s.any (·.oddRegionals))

end BreakContext

/-- For every character of the units whether a line may end before it. -/
def breaksFrom (context : Option BreakContext) : List BreakUnit → List Bool
  | [] => []
  | next :: rest =>
    let allowed := context.any (·.allows next rest)
    allowed :: List.replicate next.marks false ++
      breaksFrom (some (BreakContext.after context next)) rest

/-- For every character whether a line may end before it. -/
def breaksBefore (cs : List Char) : List Bool := breaksFrom none (BreakUnit.ofText cs)

end Configurable.Text
