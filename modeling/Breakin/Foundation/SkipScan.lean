import Mathlib.Algebra.Group.Nat.Even

/-!
# A scan that skips

A scan goes over the places in order and jumps over the next one after each hit.
The hits that it sees are those with an even number of hits directly in front of
them.
-/

namespace Breakin
namespace Foundation

variable (hit : Nat -> Bool)

/-- The hits that a scan of `n` places from `k` on sees. -/
def skipScan : Nat -> Nat -> List Nat
  | 0, _ => []
  | 1, k => if hit k then [k] else []
  | n + 2, k =>
      if hit k then k :: skipScan n (k + 2) else skipScan (n + 1) (k + 1)

def runBefore : Nat -> Nat
  | 0 => 0
  | k + 1 => if hit k then runBefore k + 1 else 0

variable {hit}

theorem runBefore_of_hit {k : Nat} (h : hit k = true) :
    runBefore hit (k + 1) = runBefore hit k + 1 := by
  rw [runBefore, if_pos h]

theorem runBefore_of_miss {k : Nat} (h : hit k = false) :
    runBefore hit (k + 1) = 0 := by
  rw [runBefore, if_neg (by simp [h])]

theorem runBefore_congr {hit' : Nat -> Bool} {k : Nat}
    (h : forall j, j < k -> hit j = hit' j) :
    runBefore hit k = runBefore hit' k := by
  induction k with
  | zero => rfl
  | succ k ih =>
      rw [runBefore, runBefore, ih fun j hj => h j (Nat.lt_succ_of_lt hj),
        h k (Nat.lt_succ_self k)]

/-- The scan does not look at the place behind a hit, and looks at the next. -/
theorem even_runBefore_of_hit {k : Nat} (hk : Even (runBefore hit k))
    (h : hit k = true) :
    ¬ Even (runBefore hit (k + 1)) ∧ Even (runBefore hit (k + 2)) := by
  have hodd : ¬ Even (runBefore hit (k + 1)) := by
    rw [runBefore_of_hit h]
    exact fun heven => Nat.even_add_one.mp heven hk
  refine ⟨hodd, ?_⟩
  cases hnext : hit (k + 1) with
  | true =>
      rw [runBefore_of_hit hnext]
      exact Nat.even_add_one.mpr hodd
  | false =>
      rw [runBefore_of_miss hnext]
      exact Even.zero

theorem even_runBefore_of_miss {k : Nat} (h : hit k = false) :
    Even (runBefore hit (k + 1)) := by
  rw [runBefore_of_miss h]
  exact Even.zero

theorem skipScan_eq_filter {n k : Nat} (hk : Even (runBefore hit k)) :
    skipScan hit n k = (List.range' k n).filter fun j =>
      hit j && decide (Even (runBefore hit j)) := by
  induction n, k using skipScan.induct hit with
  | case1 k => rfl
  | case2 k h => simp [skipScan, h, hk]
  | case3 k h => simp [skipScan, h]
  | case4 n k h ih =>
      rcases even_runBefore_of_hit hk h with ⟨hodd, heven⟩
      rw [skipScan, if_pos h, ih heven, List.range'_succ, List.range'_succ,
        List.filter_cons_of_pos (by simp [h, hk]),
        List.filter_cons_of_neg (by simp [hodd])]
  | case5 n k h ih =>
      have hmiss : hit k = false := Bool.eq_false_iff.mpr h
      have hrange : List.range' k (n + 2) = k :: List.range' (k + 1) (n + 1) :=
        List.range'_succ
      rw [skipScan, if_neg h, ih (even_runBefore_of_miss hmiss), hrange,
        List.filter_cons_of_neg (by simp [hmiss])]

theorem skipScan_sorted {n : Nat} : (skipScan hit n 0).Pairwise (· < ·) := by
  rw [skipScan_eq_filter Even.zero]
  exact List.Pairwise.filter _ List.pairwise_lt_range'

theorem mem_skipScan {n j : Nat} :
    j ∈ skipScan hit n 0 <->
      j < n ∧ hit j = true ∧ Even (runBefore hit j) := by
  rw [skipScan_eq_filter Even.zero, List.mem_filter, List.mem_range'_1,
    Bool.and_eq_true, decide_eq_true_eq, Nat.zero_add]
  exact and_congr_left fun _ => and_iff_right (Nat.zero_le j)

end Foundation
end Breakin
