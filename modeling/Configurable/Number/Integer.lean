import Configurable.Number.Power

/-!
# Integers of 64 bits

Arguments and documents write an integer as a sign and a magnitude. The lowest integer has
a magnitude that no positive one has.
-/

namespace Configurable.Integer

/-- The integer with a sign and a magnitude, if it fits into 64 bits. -/
def ofMagnitude? (negative : Bool) (magnitude : Nat) : Option Int64 :=
  if negative then
    if magnitude ≤ twoTo 63 then some (Int64.ofInt (-(magnitude : Int))) else none
  else
    if magnitude < twoTo 63 then some (Int64.ofNat magnitude) else none

end Configurable.Integer
