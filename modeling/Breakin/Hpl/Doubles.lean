import Breakin.Foundation.Rounding
import Breakin.Hpl.Size

/-!
# The problem size as it is computed

`hpl_calc_n` multiplies in `double` and takes the root in `long double`.  What is
printed is then not always the largest size, but it is at most two blocks away from
more than there is, and it still fits into the memory.
-/

namespace Breakin
namespace Hpl

open Foundation

/-- The `double` nearest to `.94`, in units of `2 ^ -53`. -/
def MEM_PERCENT : Nat := 8466767299456532

/-- `ram * 1024 * MEM_PERCENT`: the product with 1024 is converted to `double`, the
other one is rounded to 53 bits and cut to an integer. -/
def ramOfDouble (argv1 : CString) : UInt64 :=
  let ram := strtoull argv1 - UInt64.ofNat MEM_RESERVE
  UInt64.ofNat
    (roundBits 53 (roundBits 53 (ram * 1024).toNat * MEM_PERCENT) / 2 ^ 53)

/-- `sqrtl((long double) ram / 8)` in units of `2 ^ -65`, rounded to the 64 bits of a
`long double`. -/
def sqrtl (ram : Nat) : Nat :=
  roundBits 64 (stickyRoot (ram * 2 ^ 125))

def problemSizeDouble (argv1 : CString) : Nat :=
  sqrtl (ramOfDouble argv1).toNat / 2 ^ 65 / 192 * 192

/-- `main`, with the roundings. -/
def hplCalcNDouble (argv1 : CString) : CString :=
  decimal (problemSizeDouble argv1) ++ ['\n']

end Hpl
end Breakin
