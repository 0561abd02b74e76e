import Configurable.Number.FloatText

/-!
# Decimals

A decimal is a sign and a mantissa divided by a power of ten. The mantissa has at most 96
bits and the scale, the number of places, is at most 28; both limits are part of the type.
The scale is kept as written, so `1.50` is not shown as `1.5`, but decimals are compared as
numbers. A zero that is written with a minus is plain zero; one that a negative number was
rounded to keeps the sign.

Text beyond the limits is cut at the first character that does not fit. If it is a digit, it
rounds the last one kept, a five upwards; an underscore rounds nothing. The digits behind it
do not count. Digits of the integer part are never cut.

Behind the last of all places, a mantissa that is wider than a machine word skips underscores,
so that it is rounded by a digit all the same.
-/

namespace Configurable

structure Decimal where
  negative : Bool
  mantissa : Nat
  scale : Nat
  mantissa_lt : mantissa < twoTo 96
  scale_le : scale ≤ 28
deriving DecidableEq, Repr

namespace Decimal

def mantissaLimit : Nat := twoTo 96

def maxScale : Nat := 28

/-- The decimal of these parts, if they are within the limits. -/
def ofParts? (negative : Bool) (mantissa scale : Nat) : Option Decimal :=
  if h : mantissa < twoTo 96 ∧ scale ≤ 28 then some ⟨negative, mantissa, scale, h.1, h.2⟩
  else none

/-- The mantissa with its sign. -/
def coefficient (d : Decimal) : Int := if d.negative then -(d.mantissa : Int) else d.mantissa

/-- Equality of the numbers, whatever their scales. -/
def sameNumber (a b : Decimal) : Bool :=
  a.coefficient * tenTo b.scale == b.coefficient * tenTo a.scale

def render (d : Decimal) : String :=
  let digits := Nat.toDigits 10 d.mantissa
  let sign := if d.negative then "-" else ""
  if d.scale = 0 then sign ++ String.ofList digits
  else
    let padded := List.replicate (d.scale + 1 - digits.length) '0' ++ digits
    let places := padded.length - d.scale
    sign ++ String.ofList (padded.take places) ++ "." ++ String.ofList (padded.drop places)

/-! ## Reading text -/

/-- A mantissa with the text behind it that does not fit, the first character of which
rounds it. When rounding makes the mantissa itself too large, its last place goes. -/
def rounded? (rest : List Char) (mantissa scale : Nat) : Option (Nat × Nat) :=
  if !rest.all (fun c => c.isDigit || c = '_') then none
  else if !rest.head?.any (fun c => c.isDigit && 5 ≤ FloatText.digitValue c) then
    some (mantissa, scale)
  else if mantissa + 1 < mantissaLimit then some (mantissa + 1, scale)
  else if scale = 0 then none
  else some ((mantissa + 5) / 10, scale - 1)

/-- Mantissas from here on are wide: a further digit might not fit a word of 64 bits. The
bound keeps a distance of 255 to the first that does not. -/
def wideFrom : Nat := (twoTo 64 - 1) / 10 - 255

/-- Whether all places are taken. -/
def isFull (scale : Nat) (point : Bool) : Bool := point && maxScale ≤ scale

/-- What rounds a mantissa that is full, of the text behind it. Underscores do not count if the
mantissa was wide `before` its last digit. -/
def rounding (before : Nat) (rest : List Char) : List Char :=
  if wideFrom ≤ before then rest.dropWhile (· == '_') else rest

/-- Reads digits behind those that make up `mantissa`, the last `scale` of which stand
behind the point. Underscores between digits are skipped. -/
def digits? : List Char → (mantissa scale : Nat) → (point digit : Bool) → Option (Nat × Nat)
  | [], mantissa, scale, _, digit => if digit then some (mantissa, scale) else none
  | c :: cs, mantissa, scale, point, digit =>
    if c.isDigit then
      let next := 10 * mantissa + FloatText.digitValue c
      let places := if point then scale + 1 else 0
      if next < mantissaLimit then
        if isFull places point then rounded? (rounding mantissa cs) next places
        else digits? cs next places point true
      else if point then rounded? (c :: cs) mantissa scale
      else none
    else if c = '.' ∧ !point then digits? cs mantissa scale true digit
    else if c = '_' ∧ digit then digits? cs mantissa scale point true
    else none

/-- A decimal without exponent. -/
def plain? (cs : List Char) : Option Decimal :=
  let (negative, digits) := FloatText.splitSign cs
  (digits? digits 0 0 false false).bind fun (mantissa, scale) =>
    ofParts? (negative && mantissa != 0) mantissa scale

/-- An exponent without sign, apart from a plus. -/
def magnitude? (cs : List Char) : Option Nat :=
  let digits := match cs with
    | '+' :: rest => rest
    | _ => cs
  if digits.isEmpty || !digits.all Char.isDigit then none
  else some (FloatText.natOfDigits digits)

/-- Moves the point to the right. Zeros fill the places that are missing. -/
def raised? (d : Decimal) (power : Nat) : Option Decimal :=
  if power ≤ d.scale then ofParts? d.negative d.mantissa (d.scale - power)
  else if maxScale < power then none
  else ofParts? d.negative (d.mantissa * tenTo (power - d.scale)) 0

/-- The number without its last digits, a half being rounded up. -/
def withoutLast (count n : Nat) : Nat :=
  if count = 0 then n else (n + tenTo count / 2) / tenTo count

/-- Moves the point to the left. Digits beyond the largest scale are rounded away. -/
def lowered? (d : Decimal) (power : Nat) : Option Decimal :=
  if maxScale < power then none
  else
    let surplus := d.scale + power - maxScale
    ofParts? d.negative (withoutLast surplus d.mantissa) (d.scale + power - surplus)

/-- A decimal with an exponent. -/
def scientific? (cs : List Char) : Option Decimal :=
  match cs.dropWhile (!FloatText.isExponentMark ·) with
  | [] => none
  | _ :: exponent => do
    let base ← plain? (cs.takeWhile (!FloatText.isExponentMark ·))
    match exponent with
    | '-' :: rest => base.lowered? (← magnitude? rest)
    | _ => base.raised? (← magnitude? exponent)

def parse? (text : String) : Option Decimal :=
  (plain? text.toList).orElse fun _ => scientific? text.toList

/-! ## Integers and doubles -/

def ofInt64 (n : Int64) : Decimal :=
  ⟨n.toInt < 0, n.toInt.natAbs, 0, by
    have hlow := Int64.le_toInt n
    have hhigh := Int64.toInt_lt n
    have hlimit : twoTo 96 = 79228162514264337593543950336 := rfl
    omega, by omega⟩

/-- Turns `mantissa / 2 ^ halvings` into `mantissa / 10 ^ places`. Each halving either
halves the mantissa, or makes one place and multiplies it by five. A mantissa that is odd
and too large for that loses its last bit. -/
def halve : (halvings : Nat) → (mantissa places : Nat) → Nat × Nat
  | 0, mantissa, places => (mantissa, places)
  | n + 1, mantissa, places =>
    if mantissa % 2 = 0 then halve n (mantissa / 2) places
    else if mantissa * 5 < mantissaLimit then halve n (mantissa * 5) (places + 1)
    else halve n (mantissa / 2) places

/-- Removes places until they are within the limit, rounding a five upwards. Nothing left
has no places. -/
def shorten : (surplus : Nat) → (mantissa places : Nat) → Nat × Nat
  | 0, mantissa, places => (mantissa, places)
  | n + 1, mantissa, places =>
    if mantissa / 10 = 0 then (0, 0)
    else shorten n (mantissa / 10 + (if mantissa % 10 ≥ 5 then 1 else 0)) (places - 1)

/-- The exact value of a double, as far as the limits allow. The sign is that of the double,
also for zero. -/
def ofFloat? (x : Float) : Option Decimal :=
  match Binary64.classify x with
  | .nan | .infinite _ => none
  | .finite negative mantissa exponent =>
    if mantissa = 0 then ofParts? negative 0 0
    else if exponent < 0 then
      let (m, places) := halve (-exponent).toNat mantissa 0
      let (m, places) := shorten (places - maxScale) m places
      ofParts? negative m places
    else ofParts? negative (mantissa * twoTo exponent.toNat) 0

end Decimal

end Configurable
