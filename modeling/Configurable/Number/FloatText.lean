import Configurable.Number.Binary64

/-!
# Doubles as text

Doubles are read from a decimal with an optional exponent, or by name. They are written
with the fewest digits that read back, in one of two layouts: positional, without a mark
for an integral value, or with an exponent for very large and very small values, where
integral values keep a `.0`. Of two texts that are equally close, the first layout takes
the larger one and the second the one whose last digit is even.
-/

namespace Configurable.FloatText

/-! ## Reading -/

def digitValue (c : Char) : Nat := c.toNat - '0'.toNat

/-- The number a sequence of decimal digits denotes. -/
def natOfDigits (cs : List Char) : Nat := cs.foldl (fun n c => 10 * n + digitValue c) 0

/-- A sign, if there is one, and what follows: whether the sign is a minus. -/
def splitSign : List Char → Bool × List Char
  | '-' :: cs => (true, cs)
  | '+' :: cs => (false, cs)
  | cs => (false, cs)

/-- The exponent after the mark: a sign and at least one digit. -/
def exponent? (cs : List Char) : Option Int :=
  let (negative, digits) := splitSign cs
  if digits.isEmpty || !digits.all Char.isDigit then none
  else if negative then some (-(natOfDigits digits : Int))
  else some (natOfDigits digits)

/-- Digits with at most one point among them, and at least one digit. -/
def mantissa? (cs : List Char) : Option (Nat × Int) :=
  let whole := cs.takeWhile (· ≠ '.')
  let fraction := (cs.dropWhile (· ≠ '.')).drop 1
  if (whole ++ fraction).isEmpty || !(whole ++ fraction).all Char.isDigit then none
  else some (natOfDigits (whole ++ fraction), -(fraction.length : Int))

def isExponentMark (c : Char) : Bool := c == 'e' || c == 'E'

/-- A decimal without sign, as digits and a power of ten. -/
def decimal? (cs : List Char) : Option (Nat × Int) := do
  let (digits, power) ← mantissa? (cs.takeWhile (!isExponentMark ·))
  match cs.dropWhile (!isExponentMark ·) with
  | [] => pure (digits, power)
  | _ :: rest => pure (digits, power + (← exponent? rest))

def nan : Float := Float.ofBits 0x7FF8000000000000

/-- A double as decimal text, or `inf`, `infinity` or `nan` in any case. -/
def parse? (text : String) : Option Float :=
  let (negative, cs) := splitSign text.toList
  let word := String.ofList (cs.map Char.toLower)
  if word = "nan" then some nan
  else if word = "inf" ∨ word = "infinity" then some (Binary64.infinity negative)
  else (decimal? cs).map fun (digits, power) => Binary64.nearest negative digits power

/-! ## Writing -/

def zeros (n : Nat) : String := String.ofList (List.replicate n '0')

/-- Digits with the point `places` digits from their start; zeros fill up on both sides.
A point at the end is not written. -/
def pointAfter (digits : List Char) (places : Int) : String :=
  if places ≤ 0 then "0." ++ zeros (-places).toNat ++ String.ofList digits
  else if digits.length ≤ places.toNat then
    String.ofList digits ++ zeros (places.toNat - digits.length)
  else String.ofList (digits.take places.toNat) ++ "." ++ String.ofList (digits.drop places.toNat)

/-- The digits of the shortest decimal, and where its point stands. -/
def shortestDigits (tie : Binary64.Tie) (mantissa : Nat) (exponent : Int) : List Char × Int :=
  let (n, power) := Binary64.shortest tie mantissa exponent
  let digits := Nat.toDigits 10 n
  (digits, power + digits.length)

/-- Never with an exponent, and with a point only before a fraction. -/
def positional (x : Float) : String :=
  match Binary64.classify x with
  | .nan => "NaN"
  | .infinite negative => if negative then "-inf" else "inf"
  | .finite negative mantissa exponent =>
    let sign := if negative then "-" else ""
    if mantissa = 0 then sign ++ "0"
    else
      let (digits, places) := shortestDigits .up mantissa exponent
      sign ++ pointAfter digits places

/-- Positional from `1e-5` to below `1e16`, with `.0` if integral, and with an exponent
outside. Exponents that are not negative are written after `plus`. -/
def scientific (plus : String) (digits : List Char) (places : Int) : String :=
  if places > 16 ∨ places ≤ -5 then
    let fraction := if digits.length ≤ 1 then "" else "." ++ String.ofList (digits.drop 1)
    let sign := if places > 0 then plus else ""
    String.ofList (digits.take 1) ++ fraction ++ "e" ++ sign ++ toString (places - 1)
  else if places > 0 ∧ digits.length ≤ places.toNat then pointAfter digits places ++ ".0"
  else pointAfter digits places

/-- The finite doubles with a mark that tells them from integers; nothing for the
others. -/
def marked? (plus : String) (x : Float) : Option String :=
  match Binary64.classify x with
  | .nan | .infinite _ => none
  | .finite negative mantissa exponent =>
    let sign := if negative then "-" else ""
    if mantissa = 0 then some (sign ++ "0.0")
    else
      let (digits, places) := shortestDigits .even mantissa exponent
      some (sign ++ scientific plus digits places)

end Configurable.FloatText
