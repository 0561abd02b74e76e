import Configurable.Number.Power

/-!
# Doubles as numbers

What a double stands for, in exact arithmetic: a double that is no infinity and no NaN is
`mantissa * 2 ^ exponent`. Two directions are given here. `nearest` is the double closest
to a decimal, with ties to the even mantissa. `shortest` is the decimal with the fewest
digits that `nearest` takes back to the double, and of those the closest to it; which of
two that are equally close is up to the caller. Both work on natural numbers, so neither
rounds twice.
-/

namespace Configurable.Binary64

inductive Class where
  | nan
  | infinite (negative : Bool)
  | finite (negative : Bool) (mantissa : Nat) (exponent : Int)
deriving DecidableEq, Repr

def mantissaLimit : Nat := twoTo 52

/-- The exponent of the subnormal doubles, and of the smallest normal ones. -/
def lowestExponent : Int := -1074

/-- The bit that is set in negative doubles, as a number. -/
def signBit : Nat := twoTo 63

def classify (x : Float) : Class :=
  let bits := x.toBits.toNat
  let negative := bits / signBit == 1
  let biased := bits / mantissaLimit % 2048
  let fraction := bits % mantissaLimit
  if biased == 2047 then
    if fraction == 0 then .infinite negative else .nan
  else if biased == 0 then .finite negative fraction lowestExponent
  else .finite negative (mantissaLimit + fraction) (lowestExponent + (biased - 1 : Nat))

/-! ## From a decimal to the nearest double -/

def infinity (negative : Bool) : Float :=
  Float.ofBits (UInt64.ofNat ((if negative then signBit else 0) + 2047 * mantissaLimit))

/-- Quotient to the nearest integer, a half to the even neighbour. -/
def roundDiv (num den : Nat) : Nat :=
  let q := num / den
  let r := num % den
  if 2 * r < den then q else if den < 2 * r then q + 1 else if q % 2 == 0 then q else q + 1

/-- `num / den` as a fraction of `2 ^ exponent`. -/
def scaled (num den : Nat) (exponent : Int) : Nat × Nat :=
  if exponent ≥ 0 then (num, den * twoTo exponent.toNat) else (num * twoTo (-exponent).toNat, den)

/-- The bits, without the sign, of the double nearest to `num / den`. The mantissa is
rounded on the grid of the binade that holds the number; a mantissa that reaches the next
binade carries into the exponent by plain addition. -/
def nearestBits (num den : Nat) : Nat :=
  let guess : Int := (num.log2 : Int) - den.log2 - 52
  let tooHigh := (scaled num den guess).1 < mantissaLimit * (scaled num den guess).2
  let exponent := max (if tooHigh then guess - 1 else guess) lowestExponent
  let fraction := scaled num den exponent
  (exponent - lowestExponent).toNat * mantissaLimit + roundDiv fraction.1 fraction.2

/-- The number of decimal digits; zero has none. -/
def digitCount (n : Nat) : Nat := if n = 0 then 0 else (Nat.toDigits 10 n).length

/-- The double nearest to `digits * 10 ^ exponent`. Decimals beyond every double are
decided by their size alone. -/
def nearest (negative : Bool) (digits : Nat) (exponent : Int) : Float :=
  let size := exponent + digitCount digits
  if digits = 0 ∨ size < -330 then
    Float.ofBits (UInt64.ofNat (if negative then signBit else 0))
  else if size > 310 then infinity negative
  else
    let bits :=
      if exponent ≥ 0 then nearestBits (digits * tenTo exponent.toNat) 1
      else nearestBits digits (tenTo (-exponent).toNat)
    if bits ≥ 2047 * mantissaLimit then infinity negative
    else Float.ofBits (UInt64.ofNat ((if negative then signBit else 0) + bits))

/-! ## From a double to its shortest decimal -/

/-- The reals that round to a double, with the double itself, as multiples of
`2 ^ unit / den`. The ends belong to it if they are closed. -/
structure Interval where
  low : Nat
  value : Nat
  high : Nat
  den : Nat
  closed : Bool

/-- Half way to both neighbours. Below a power of two the neighbour is nearer. -/
def Interval.of (mantissa : Nat) (exponent : Int) : Interval :=
  let below := if mantissa == mantissaLimit && exponent > lowestExponent then 1 else 2
  let num := twoTo (exponent - 2).toNat
  let den := twoTo (2 - exponent).toNat
  ⟨(4 * mantissa - below) * num, 4 * mantissa * num, (4 * mantissa + 2) * num, den,
    mantissa % 2 == 0⟩

/-- Multiplied by ten as often as `shift` says, or divided if it is negative. -/
def Interval.scale (i : Interval) (shift : Int) : Interval :=
  if shift ≥ 0 then
    let p := tenTo shift.toNat
    ⟨i.low * p, i.value * p, i.high * p, i.den, i.closed⟩
  else ⟨i.low, i.value, i.high, i.den * tenTo (-shift).toNat, i.closed⟩

def Interval.contains (i : Interval) (n : Nat) : Bool :=
  let x := n * i.den
  if i.closed then i.low ≤ x && x ≤ i.high else i.low < x && x < i.high

/-- Which of two neighbours a number in the middle of them goes to. -/
inductive Tie where
  | up
  | even
deriving DecidableEq, Repr

/-- Whether the lower of two neighbours is taken for a number that is `num / den` above it. -/
def Tie.goesDown (tie : Tie) (below num den : Nat) : Bool :=
  2 * num < den || (2 * num == den && tie == .even && below % 2 == 0)

/-- The integer of the interval closest to its value. -/
def Interval.integer? (tie : Tie) (i : Interval) : Option Nat :=
  let below := i.value / i.den
  let belowIn := i.contains below
  let aboveIn := i.contains (below + 1)
  if belowIn && aboveIn then
    if tie.goesDown below (i.value % i.den) i.den then some below else some (below + 1)
  else if belowIn then some below
  else if aboveIn then some (below + 1)
  else none

/-- The exponent `k` with `10 ^ (k - 1) ≤ num / den < 10 ^ k`. The digit counts leave two
candidates. -/
def decimalExponent (num den : Nat) : Int :=
  let start : Int := (digitCount num : Int) - digitCount den
  let reaches := fun (k : Int) =>
    if k ≥ 0 then num < den * tenTo k.toNat else num * tenTo (-k).toNat < den
  if reaches start then start else start + 1

/-- Digits without zeros at their end, and the power of ten they count. -/
def stripZeros (fuel : Nat) (digits : Nat) (exponent : Int) : Nat × Int :=
  match fuel with
  | 0 => (digits, exponent)
  | fuel + 1 =>
    if digits ≠ 0 ∧ digits % 10 = 0 then stripZeros fuel (digits / 10) (exponent + 1)
    else (digits, exponent)

/-- Tries one digit, two digits and so on, at most `fuel` times. -/
def shortestFrom (tie : Tie) (i : Interval) (top : Int) : Nat → Nat → Nat × Int
  | 0, digits => ((i.scale (digits - top)).value / (i.scale (digits - top)).den, top - digits)
  | fuel + 1, digits =>
    match (i.scale (digits - top)).integer? tie with
    | some n => stripZeros 20 n (top - digits)
    | none => shortestFrom tie i top fuel (digits + 1)

/-- The digits and the power of ten of the shortest decimal for
`mantissa * 2 ^ exponent`. Seventeen digits are always enough. -/
def shortest (tie : Tie) (mantissa : Nat) (exponent : Int) : Nat × Int :=
  if mantissa = 0 then (0, 0)
  else
    let i := Interval.of mantissa exponent
    shortestFrom tie i (decimalExponent i.value i.den) 17 1

end Configurable.Binary64
