import Breakin.Foundation.Numbers
import Breakin.Foundation.Roots

/-!
# The process grid

`hpl_calc_pq` looks for a divisor of the number of cores from the rounded root
downwards, and prints it with its cofactor.
-/

namespace Breakin
namespace Hpl

open Foundation

/-- `for (p = ...; p > 1; --p) if (cores % p == 0) break;` -/
def pqLoop (cores : Nat) : Nat -> Nat
  | 0 => 0
  | 1 => 1
  | p + 2 => if cores % (p + 2) = 0 then p + 2 else pqLoop cores (p + 1)

/-- The two lines of `HPL.dat`. -/
def gridLines (p q : Nat) : CString :=
  printInt p ++ "            Ps\n".toList ++
    (printInt q ++ "            Qs\n".toList)

/-- `main` with its argument; the root of a negative number and a division by
zero have no result. -/
def hplCalcPq (argv1 : CString) : Option CString :=
  let cores := (atoi argv1).toInt
  if cores < 0 then none
  else
    let p := pqLoop cores.toNat (ceilSqrt cores.toNat)
    if p = 0 then none
    else
      let q := cores.toNat / p
      if p > q then some (gridLines q p) else some (gridLines p q)

/-- Both numbers are read back from the lines. -/
theorem gridLines_injective {p q p' q' : Nat} (h : gridLines p q = gridLines p' q') :
    p = p' ∧ q = q' := by
  have hshape : forall m n : Nat, gridLines m n =
      decimal m ++ ' ' :: ("           Ps\n".toList ++
        (decimal n ++ ' ' :: "           Qs\n".toList)) := by
    intro m n
    simp [gridLines, printInt]
  rw [hshape, hshape] at h
  rcases decimal_append_injective (by decide) h with ⟨hp, hrest⟩
  rcases decimal_append_injective (by decide) (List.append_cancel_left hrest)
    with ⟨hq, _⟩
  exact ⟨hp, hq⟩

/-!
# The search
-/

/-- The loop ends at the largest divisor that is not above its start. -/
theorem pqLoop_largest (cores : Nat) {p : Nat} (hp : 0 < p) :
    pqLoop cores p ∣ cores ∧ pqLoop cores p ≤ p ∧
      forall d, d ∣ cores -> d ≤ p -> d ≤ pqLoop cores p := by
  induction p using pqLoop.induct cores with
  | case1 => exact absurd hp (Nat.lt_irrefl 0)
  | case2 =>
      exact ⟨Nat.one_dvd _, Nat.le_refl 1, fun d _ hle => hle⟩
  | case3 p hdivides =>
      rw [pqLoop, if_pos hdivides]
      exact ⟨Nat.dvd_of_mod_eq_zero hdivides, Nat.le_refl _,
        fun d _ hle => hle⟩
  | case4 p hnot ih =>
      rw [pqLoop, if_neg hnot]
      rcases ih (Nat.succ_pos p) with ⟨hdvd, hle, hlargest⟩
      refine ⟨hdvd, by omega, fun d hd hdle => ?_⟩
      have hne : d ≠ p + 2 := by
        intro heq
        rw [heq] at hd
        exact hnot (Nat.mod_eq_zero_of_dvd hd)
      exact hlargest d hd (by omega)

theorem ceilSqrt_pos {n : Nat} (hn : 0 < n) : 0 < ceilSqrt n := by
  by_contra hzero
  have hle := ceilSqrt_le_iff.mp (Nat.le_of_not_lt hzero)
  omega

theorem pqLoop_squarest {cores : Nat} (hcores : 0 < cores) :
    Squarest cores
      (min (pqLoop cores (ceilSqrt cores))
        (cores / pqLoop cores (ceilSqrt cores)))
      (max (pqLoop cores (ceilSqrt cores))
        (cores / pqLoop cores (ceilSqrt cores))) := by
  rcases pqLoop_largest cores (ceilSqrt_pos hcores)
    with ⟨hdvd, hle, hlargest⟩
  exact squarest_of_largest hcores hdvd hle hlargest

/-- For every number of cores the program prints the factorisation closest to a
square, the smaller factor, which is the largest divisor up to the root, first. -/
theorem hplCalcPq_squarest (argv1 : CString) (h : 0 < (atoi argv1).toInt) :
    exists p q : Nat, hplCalcPq argv1 = some (gridLines p q) ∧
      (p * q : Int) = (atoi argv1).toInt ∧ p ≤ q ∧
        (forall d, d ∣ (atoi argv1).toInt.toNat ->
          d * d ≤ (atoi argv1).toInt.toNat -> d ≤ p) ∧
            Squarest (atoi argv1).toInt.toNat p q := by
  unfold hplCalcPq
  dsimp only
  generalize (atoi argv1).toInt = n at h
  have hcores : 0 < n.toNat := by omega
  have hcast : (n.toNat : Int) = n := Int.toNat_of_nonneg (by omega)
  have hsquarest := pqLoop_squarest hcores
  have hdvd := (pqLoop_largest n.toNat (ceilSqrt_pos hcores)).left
  have hp := Nat.pos_of_dvd_of_pos hdvd hcores
  generalize pqLoop n.toNat (ceilSqrt n.toNat) = p at hsquarest hp
  rw [if_neg (by omega), if_neg (by omega)]
  have hassemble : forall a b : Nat, Squarest n.toNat a b ->
      (a * b : Int) = n ∧ a ≤ b ∧
        (forall d, d ∣ n.toNat -> d * d ≤ n.toNat -> d ≤ a) ∧
          Squarest n.toNat a b := by
    intro a b hab
    have hproduct : ((a * b : Nat) : Int) = (n.toNat : Int) := by
      rw [hab.product]
    rw [Nat.cast_mul, hcast] at hproduct
    exact ⟨hproduct, hab.ordered, fun d hd hroot => hab.largest hd hroot, hab⟩
  by_cases hswap : p > n.toNat / p
  · rw [Nat.min_eq_right (by omega), Nat.max_eq_left (by omega)] at hsquarest
    exact ⟨n.toNat / p, p, if_pos hswap, hassemble _ _ hsquarest⟩
  · rw [Nat.min_eq_left (by omega), Nat.max_eq_right (by omega)] at hsquarest
    exact ⟨p, n.toNat / p, if_neg hswap, hassemble _ _ hsquarest⟩

/-- Twelve cores: the search stops at 4, above the root, and prints 3 and 4. -/
theorem twelveCores_squarest :
    0 < (atoi "12".toList).toInt ∧
      exists p q : Nat, hplCalcPq "12".toList = some (gridLines p q) ∧
        (p * q : Int) = (atoi "12".toList).toInt ∧ p ≤ q ∧
          (forall d, d ∣ (atoi "12".toList).toInt.toNat ->
            d * d ≤ (atoi "12".toList).toInt.toNat -> d ≤ p) ∧
              Squarest (atoi "12".toList).toInt.toNat p q :=
  ⟨by decide, hplCalcPq_squarest "12".toList (by decide)⟩

end Hpl
end Breakin
