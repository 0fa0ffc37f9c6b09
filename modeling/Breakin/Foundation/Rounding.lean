import Breakin.Foundation.Printf

/-!
# Rounding to a number of bits

What floating point makes of a natural number: the nearest one with so many
significant bits, ties to even.  A value with a fraction is scaled by a power of two
before it is rounded.
-/

namespace Breakin
namespace Foundation

def roundBits (bits n : Nat) : Nat :=
  if n < 2 ^ bits then n
  else
    let unit := 2 ^ (Nat.log2 n + 1 - bits)
    roundHalfEven n unit * unit

/-- Twice the root of `n`, with a last bit that tells whether there is more of it. -/
def stickyRoot (n : Nat) : Nat :=
  2 * Nat.sqrt n + if Nat.sqrt n * Nat.sqrt n = n then 0 else 1

end Foundation
end Breakin
