import Configurable.Toml.Number

/-!
# Dates and times

A date, a time, or both, with or without an offset. They are kept as text in one form:
`T` between date and time, `Z` for the zero offset where it was written so, and a
fraction of a second of at most nine digits without zeros at its end.
-/

namespace Configurable.Toml.Moment

open Reader

def natOf (ds : List Char) : Nat := FloatText.natOfDigits ds

/-- A number of a fixed width, within bounds. -/
def field (width low high : Nat) : Reader Nat :=
  checked (exactly width Char.isDigit) fun ds =>
    if low ≤ natOf ds ∧ natOf ds ≤ high then .ok (natOf ds) else .error .outOfRange

def padded (width n : Nat) : String :=
  let ds := Nat.toDigits 10 n
  String.ofList (List.replicate (width - ds.length) '0' ++ ds)

def isLeap (year : Nat) : Bool := year % 4 == 0 && (year % 100 != 0 || year % 400 == 0)

def daysIn (year month : Nat) : Nat :=
  if month = 2 then (if isLeap year then 29 else 28)
  else if month ∈ [4, 6, 9, 11] then 30
  else 31

def date : Reader String := do
  let year ← exactly 4 Char.isDigit
  let _ ← char '-'
  let month ← commit (field 2 1 12)
  let _ ← commit (char '-')
  let day ← commit (checked (field 2 1 31) fun day =>
    if day ≤ daysIn (natOf year) month then .ok day else .error .outOfRange)
  pure s!"{padded 4 (natOf year)}-{padded 2 month}-{padded 2 day}"

/-- The digits behind the point, cut to nine and without zeros at their end. -/
def secondFraction : Reader String := do
  let _ ← char '.'
  let ds ← run1 Char.isDigit
  let kept := ((ds.take 9).reverse.dropWhile (· == '0')).reverse
  pure (if kept.isEmpty then "" else "." ++ String.ofList kept)

def time : Reader String := do
  let hour ← field 2 0 23
  let _ ← char ':'
  let minute ← commit (field 2 0 59)
  let _ ← commit (char ':')
  let second ← commit (field 2 0 60)
  let fraction ← optional secondFraction
  pure s!"{padded 2 hour}:{padded 2 minute}:{padded 2 second}{fraction.getD default}"

def offset : Reader String := within .timeOffset <| orElse
  (do
    let _ ← satisfying fun c => c == 'Z' || c == 'z'
    pure "Z")
  do
    let sign ← satisfying fun c => c == '+' || c == '-'
    let hour ← commit (field 2 0 23)
    let _ ← commit (char ':')
    let minute ← commit (field 2 0 59)
    let shown := if sign == '-' && (hour != 0 || minute != 0) then "-" else "+"
    pure s!"{shown}{padded 2 hour}:{padded 2 minute}"

def dateTime : Reader String := within .dateTime do
  let day ← date
  let clock := do
    let _ ← satisfying fun c => c == 'T' || c == 't' || c == ' '
    let t ← time
    let zone ← optional offset
    pure ("T" ++ t ++ zone.getD "")
  pure (day ++ (← optional clock).getD "")

def moment : Reader String := orElse dateTime (within .time time)

end Configurable.Toml.Moment
