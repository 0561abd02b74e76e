/-!
# Powers

The powers of two and of ten. The limits of integers, doubles and decimals are powers of
two, and the places of a decimal count powers of ten.
-/

namespace Configurable

def twoTo (n : Nat) : Nat := Nat.pow 2 n

def tenTo (n : Nat) : Nat := Nat.pow 10 n

theorem twoTo_succ (n : Nat) : twoTo (n + 1) = twoTo n * 2 := rfl

theorem tenTo_succ (n : Nat) : tenTo (n + 1) = tenTo n * 10 := rfl

theorem twoTo_pos : ∀ n, 0 < twoTo n
  | 0 => Nat.one_pos
  | n + 1 => by have := twoTo_pos n; rw [twoTo_succ]; omega

theorem tenTo_pos : ∀ n, 0 < tenTo n
  | 0 => Nat.one_pos
  | n + 1 => by have := tenTo_pos n; rw [tenTo_succ]; omega

end Configurable
