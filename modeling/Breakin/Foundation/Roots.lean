import Mathlib.Analysis.Real.Sqrt

/-!
# Square roots of integers

Roots that are rounded to an integer, and the two factors of a number that lie
closest to its root.
-/

namespace Breakin
namespace Foundation

def ceilSqrt (n : Nat) : Nat :=
  if Nat.sqrt n * Nat.sqrt n = n then Nat.sqrt n else Nat.sqrt n + 1

theorem ceilSqrt_le_iff {n k : Nat} : ceilSqrt n ≤ k <-> n ≤ k * k := by
  have hbelow := Nat.sqrt_le n
  unfold ceilSqrt
  split
  next hsquare =>
    constructor
    · intro hle
      rw [← hsquare]
      exact Nat.mul_le_mul hle hle
    · intro hle
      rw [← hsquare] at hle
      exact Nat.mul_self_le_mul_self_iff.mp hle
  next hbetween =>
    have habove : Nat.sqrt n * Nat.sqrt n < n := by omega
    rw [Nat.succ_le_iff, Nat.sqrt_lt]
    constructor
    · exact Nat.le_of_lt
    · intro hle
      rcases Nat.lt_or_eq_of_le hle with hlt | heq
      · exact hlt
      · rw [heq, Nat.sqrt_eq] at habove
        exact absurd habove (Nat.lt_irrefl _)

theorem le_sqrt_div_iff {d : Nat} (hd : 0 < d) {n k : Nat} :
    k ≤ Nat.sqrt (n / d) <-> d * (k * k) ≤ n := by
  rw [Nat.le_sqrt, Nat.le_div_iff_mul_le hd, Nat.mul_comm]

/-!
# The factors closest to the root
-/

/-- `p` times `q` is the factorisation of `n` closest to a square. -/
structure Squarest (n p q : Nat) : Prop where
  product : p * q = n
  ordered : p ≤ q
  closest : forall a b, a * b = n -> a ≤ b -> a ≤ p ∧ q ≤ b

theorem Squarest.largest {n p q d : Nat} (h : Squarest n p q) (hd : d ∣ n)
    (hroot : d * d ≤ n) : d ≤ p := by
  rcases hd with ⟨e, he⟩
  rcases Nat.eq_zero_or_pos d with hzero | hpos
  · rw [hzero]
    exact Nat.zero_le p
  · rw [he] at hroot
    have hle : d ≤ e := Nat.le_of_mul_le_mul_left hroot hpos
    exact (h.closest d e he.symm hle).left

/-- A search for a divisor from the rounded root downwards finds one of the two
factors, be it the one below the root or the one above. -/
theorem squarest_of_largest {n p : Nat} (hn : 0 < n) (hdvd : p ∣ n)
    (hroot : p ≤ ceilSqrt n)
    (hlargest : forall d, d ∣ n -> d ≤ ceilSqrt n -> d ≤ p) :
    Squarest n (min p (n / p)) (max p (n / p)) := by
  have hproduct : p * (n / p) = n := Nat.mul_div_cancel' hdvd
  have hp : 0 < p := Nat.pos_of_dvd_of_pos hdvd hn
  refine ⟨?_, Nat.le_trans (Nat.min_le_left ..) (Nat.le_max_left ..), ?_⟩
  · rw [min_mul_max, hproduct]
  · intro a b hab hle
    have hb : 0 < b := Nat.pos_of_ne_zero fun hzero => by
      rw [hzero, Nat.mul_zero] at hab
      omega
    have hsmall : a * a ≤ n := by
      rw [← hab]
      exact Nat.mul_le_mul_left a hle
    have hsqrt : a ≤ ceilSqrt n := by
      by_contra hlt
      have habove := ceilSqrt_le_iff.mp (Nat.le_of_lt (Nat.lt_of_not_le hlt))
      have hmore : ceilSqrt n ≤ a - 1 := by omega
      have hsquare := ceilSqrt_le_iff.mp hmore
      have hless : (a - 1) * (a - 1) < a * a :=
        Nat.mul_self_lt_mul_self (by omega)
      omega
    have hap : a ≤ p := hlargest a (Dvd.intro b hab) hsqrt
    -- the cofactor of `b` is not above that of `p`
    have hqb : n / p ≤ b := by
      apply Nat.le_of_mul_le_mul_left _ hp
      rw [hproduct, ← hab]
      exact Nat.mul_le_mul_right b hap
    have hpb : p ≤ b := by
      have hbroot : n ≤ b * b := by
        rw [← hab]
        exact Nat.mul_le_mul_right b hle
      exact Nat.le_trans hroot (ceilSqrt_le_iff.mpr hbroot)
    have haq : a ≤ n / p := by
      have hmul : a * b ≤ n / p * b := calc
        a * b = n / p * p := by rw [hab, Nat.mul_comm, hproduct]
        _ ≤ n / p * b := Nat.mul_le_mul_left _ hpb
      exact Nat.le_of_mul_le_mul_right hmul hb
    exact ⟨Nat.le_min.mpr ⟨hap, haq⟩, Nat.max_le.mpr ⟨hpb, hqb⟩⟩

end Foundation
end Breakin
