import Breakin.Foundation.Numbers
import Breakin.Foundation.Roots

/-!
# The problem size

`hpl_calc_n` takes a reserve off the memory of the machine and prints the size of
a matrix of doubles that fills 94 percent of the rest, as a multiple of the block
size.
-/

namespace Breakin
namespace Hpl

open Foundation

/-- `1024 * 768`, in KiB. -/
def MEM_RESERVE : Nat := 1024 * 768

/-- `ram` after the second assignment: the subtraction and the product with 1024
are those of an `unsigned long long`, the product with `.94` is exact and cut to an
integer. -/
def ramOf (argv1 : CString) : UInt64 :=
  let ram := strtoull argv1 - UInt64.ofNat MEM_RESERVE
  UInt64.ofNat ((ram * 1024).toNat * 94 / 100)

/-- `divider * 192`, where the root of `ram / 8` is exact and cut to an
integer. -/
def problemSize (argv1 : CString) : Nat :=
  Nat.sqrt ((ramOf argv1).toNat / 8) / 192 * 192

/-- `main` with its argument. -/
def hplCalcN (argv1 : CString) : CString :=
  decimal (problemSize argv1) ++ ['\n']

/-- What the size is to be for a machine with `memTotal` KiB: a multiple of the
block size, whose matrix fits into the memory, and the largest that fits into 94
percent of what the reserve leaves. -/
structure FitsMemory (memTotal n : Nat) : Prop where
  multiple : 192 ∣ n
  fits : 8 * (n * n) ≤ 1024 * memTotal
  largest : MEM_RESERVE ≤ memTotal ->
    IsGreatest
      (Set.ofPred fun m => 192 ∣ m ∧
        100 * (8 * (m * m)) ≤ 94 * (1024 * (memTotal - MEM_RESERVE))) n

def PrintsFitting (argv1 : CString) : Prop :=
  exists n, hplCalcN argv1 = decimal n ++ ['\n'] ∧
    FitsMemory (strtoull argv1).toNat n

/-!
# The size that is printed
-/

/-- The multiples of the block size up to the one printed are those whose matrix
fits into `ram`. -/
theorem le_problemSize_iff {argv1 : CString} {m : Nat} (hm : 192 ∣ m) :
    m ≤ problemSize argv1 <-> 8 * (m * m) ≤ (ramOf argv1).toNat := by
  rcases hm with ⟨k, hk⟩
  rw [← le_sqrt_div_iff (by decide), hk, problemSize, Nat.mul_comm 192,
    Nat.mul_le_mul_right_iff (by decide), Nat.le_div_iff_mul_le (by decide)]

theorem problemSize_multiple (argv1 : CString) : 192 ∣ problemSize argv1 :=
  Nat.dvd_mul_left ..

theorem ramOf_toNat (argv1 : CString) :
    (ramOf argv1).toNat =
      (2 ^ 64 - 786432 + (strtoull argv1).toNat) % 2 ^ 64 * 1024 % 2 ^ 64 *
        94 / 100 := by
  have hreserve : (UInt64.ofNat MEM_RESERVE).toNat = 786432 := rfl
  have hbytes : ((strtoull argv1 - UInt64.ofNat MEM_RESERVE) * 1024).toNat =
      (2 ^ 64 - 786432 + (strtoull argv1).toNat) % 2 ^ 64 * 1024 % 2 ^ 64 := by
    rw [UInt64.toNat_mul, UInt64.toNat_sub, hreserve]
    rfl
  unfold ramOf
  dsimp only
  rw [hbytes, UInt64.toNat_ofNat', Nat.mod_eq_of_lt]
  omega

theorem ramOf_of_le {argv1 : CString}
    (hsize : 1024 * (strtoull argv1).toNat < 2 ^ 64)
    (hreserve : MEM_RESERVE ≤ (strtoull argv1).toNat) :
    (ramOf argv1).toNat =
      94 * (1024 * ((strtoull argv1).toNat - MEM_RESERVE)) / 100 := by
  unfold MEM_RESERVE at hreserve ⊢
  rw [ramOf_toNat]
  omega

/-- Below the reserve the subtraction wraps around, to nearly `2 ^ 64` bytes. -/
theorem ramOf_of_lt {argv1 : CString}
    (hreserve : (strtoull argv1).toNat < MEM_RESERVE) :
    2 ^ 63 ≤ (ramOf argv1).toNat := by
  unfold MEM_RESERVE at hreserve
  rw [ramOf_toNat]
  omega

/-!
# When it fits
-/

theorem fits_of_reserve {argv1 : CString}
    (hsize : 1024 * (strtoull argv1).toNat < 2 ^ 64)
    (hreserve : MEM_RESERVE ≤ (strtoull argv1).toNat) :
    FitsMemory (strtoull argv1).toNat (problemSize argv1) := by
  have hram := ramOf_of_le hsize hreserve
  have hmultiple := problemSize_multiple argv1
  -- a matrix fits into the 94 percent when it fits into their whole bytes
  have hiff : forall m, 192 ∣ m -> (m ≤ problemSize argv1 <->
      100 * (8 * (m * m)) ≤
        94 * (1024 * ((strtoull argv1).toNat - MEM_RESERVE))) := by
    intro m hm
    rw [le_problemSize_iff hm, hram, Nat.le_div_iff_mul_le (by decide),
      Nat.mul_comm _ 100]
  have hown := (hiff _ hmultiple).mp (Nat.le_refl _)
  refine ⟨hmultiple, by omega, fun _ => ⟨⟨hmultiple, hown⟩, ?_⟩⟩
  rintro m ⟨hm, hfits⟩
  exact (hiff m hm).mpr hfits

theorem not_fits_of_lt {argv1 : CString}
    (hreserve : (strtoull argv1).toNat < MEM_RESERVE) :
    ¬ 8 * (problemSize argv1 * problemSize argv1) ≤
      1024 * (strtoull argv1).toNat := by
  intro hfits
  have hbig := ramOf_of_lt hreserve
  -- the matrix of size 192000 takes more than the whole memory
  have hsize : 192000 ≤ problemSize argv1 := by
    rw [le_problemSize_iff ⟨1000, rfl⟩]
    omega
  have hsquare := Nat.mul_self_le_mul_self hsize
  unfold MEM_RESERVE at hreserve
  omega

/-- The size is right exactly when the machine has at least the reserve. -/
theorem hplCalcN_fits_iff (argv1 : CString)
    (h : 1024 * (strtoull argv1).toNat < 2 ^ 64) :
    PrintsFitting argv1 <-> MEM_RESERVE ≤ (strtoull argv1).toNat := by
  constructor
  · rintro ⟨n, hprinted, hfits⟩
    have hn : problemSize argv1 = n :=
      decimal_injective (List.append_cancel_right hprinted)
    by_contra hreserve
    rw [← hn] at hfits
    exact not_fits_of_lt (Nat.lt_of_not_le hreserve) hfits.fits
  · intro hreserve
    exact ⟨problemSize argv1, rfl, fits_of_reserve h hreserve⟩

/-- A machine with 1 GiB. -/
theorem oneGigabyte_fits :
    1024 * (strtoull "1048576".toList).toNat < 2 ^ 64 ∧
      (PrintsFitting "1048576".toList <->
        MEM_RESERVE ≤ (strtoull "1048576".toList).toNat) :=
  ⟨by decide, hplCalcN_fits_iff "1048576".toList (by decide)⟩

/-- A machine with 512 MiB gets a size of more than a billion. -/
theorem halfGigabyte_not_fits : ¬ PrintsFitting "524288".toList := by
  rintro ⟨n, hprinted, hfits⟩
  have hn : problemSize "524288".toList = n :=
    decimal_injective (List.append_cancel_right hprinted)
  rw [← hn] at hfits
  exact not_fits_of_lt (by decide) hfits.fits

end Hpl
end Breakin
