/-!
# Tables of characters

A property of characters given by the ranges of code points that have it.
-/

namespace Configurable.Text

/-- Ranges of code points, both ends included, in ascending order. -/
abbrev CharTable := Array (Nat × Nat)

def CharTable.contains (t : CharTable) (c : Char) : Bool :=
  t.any fun range => range.1 ≤ c.toNat && c.toNat ≤ range.2

end Configurable.Text
