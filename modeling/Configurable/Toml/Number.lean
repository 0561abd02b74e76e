import Configurable.Number.FloatText
import Configurable.Number.Integer
import Configurable.Toml.Quoted

/-!
# Numbers

Integers of 64 bits in four bases, and doubles. Underscores may stand between digits.
-/

namespace Configurable.Toml.Number

open Reader

def sign : Reader Bool := do
  pure (match ← optional (satisfying fun c => c == '+' || c == '-') with
    | some '-' => true
    | _ => false)

/-- More digits, each with at most one underscore before it. -/
def moreDigits (isDigit : Char → Bool) : Reader (List Char) :=
  many <| orElse (satisfying isDigit) do
    let _ ← char '_'
    expecting .digit (commit (satisfying isDigit))

/-- Digits, of which the first may be a zero. -/
def digits (isDigit : Char → Bool) : Reader (List Char) := do
  let first ← satisfying isDigit
  let more ← moreDigits isDigit
  pure (first :: more)

/-! ## Integers -/

/-- A sign and digits without a zero in front. -/
def decimalDigits : Reader (Bool × List Char) := within .integer do
  let negative ← sign
  let nonzero := do
    let first ← satisfying fun c => c.isDigit && c != '0'
    let more ← moreDigits Char.isDigit
    pure (first :: more)
  let digits ← orElse nonzero (do pure [← satisfying Char.isDigit])
  pure (negative, digits)

def int64? (negative : Bool) (magnitude : Nat) : Except Cause Int64 :=
  match Integer.ofMagnitude? negative magnitude with
  | some n => .ok n
  | none => .error (if negative then .numberTooSmall else .numberTooLarge)

def inBase (label : Label) (mark : String) (base : Nat) (isDigit : Char → Bool) : Reader Int64 :=
  let written := within label do
    word mark
    commit (digits isDigit)
  commit (checked written fun ds => int64? false (Quoted.natOfDigits base ds))

def decimalInteger : Reader Int64 := fun c =>
  match decimalDigits c with
  | .done (negative, ds) c' =>
    commit (checked (fun _ => .done () c') fun _ => int64? negative (Quoted.natOfDigits 10 ds)) c
  | .refused e => .refused e
  | .broken e => .broken e

def integer : Reader Int64 := do
  match (← upcoming).take 2 with
  | ['0', 'x'] => inBase .hexInteger "0x" 16 Quoted.isHexDigit
  | ['0', 'o'] => inBase .octalInteger "0o" 8 fun c => '0' ≤ c && c ≤ '7'
  | ['0', 'b'] => inBase .binaryInteger "0b" 2 fun c => c == '0' || c == '1'
  | _ => decimalInteger

/-! ## Doubles -/

def exponent : Reader Int := do
  let _ ← satisfying FloatText.isExponentMark
  let negative ← sign
  let ds ← commit (digits Char.isDigit)
  let n : Int := FloatText.natOfDigits ds
  pure (if negative then -n else n)

def fraction : Reader (List Char) := do
  let _ ← char '.'
  expecting .digit (commit (digits Char.isDigit))

/-- A decimal with a fraction, an exponent or both. -/
def decimalFloat : Reader Float := do
  let (negative, whole) ← decimalDigits
  let withExponent := do pure (([] : List Char), ← exponent)
  let withFraction := do
    let places ← fraction
    pure (places, (← optional exponent).getD 0)
  let (places, power) ← orElse withExponent withFraction
  pure (Binary64.nearest negative (FloatText.natOfDigits (whole ++ places)) (power - places.length))

/-- Not the positive infinity, which only a number too large for a double is read as. -/
def isBounded (x : Float) : Bool := x != Binary64.infinity false

def namedFloat : Reader Float := do
  let negative ← sign
  let infinity := do
    word "inf"
    pure (Binary64.infinity negative)
  orElse infinity do
    word "nan"
    pure FloatText.nan

def float : Reader Float := within .float <| orElse
  (fun c =>
    match decimalFloat c with
    | .done x c' => if isBounded x then .done x c' else .broken (.bare c.position)
    | outcome => outcome)
  namedFloat

end Configurable.Toml.Number
