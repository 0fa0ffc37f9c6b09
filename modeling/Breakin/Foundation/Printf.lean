import Mathlib.Algebra.Order.Ring.Nat
import Breakin.Foundation.CString

/-!
# Printed numbers

What `printf` writes for an integer and for `%.nf`.
-/

namespace Breakin
namespace Foundation

def decimal (n : Nat) : CString :=
  Nat.toDigits 10 n

/-- `%d` and `%ld`. -/
def printInt : Int -> CString
  | .ofNat n => decimal n
  | .negSucc n => '-' :: decimal (n + 1)

/-- A `double`; a finite one is `significand * 2 ^ exponent` with a sign. -/
inductive Double where
  | finite (negative : Bool) (significand : Nat) (exponent : Int)
  | infinite (negative : Bool)
  | nan (negative : Bool)
deriving DecidableEq

def Double.zero : Double := .finite false 0 0

/-- `n / d` to the nearest integer, ties to even. -/
def roundHalfEven (n d : Nat) : Nat :=
  if 2 * (n % d) > d ∨ (2 * (n % d) = d ∧ n / d % 2 = 1) then
    n / d + 1
  else
    n / d

def scaled (digits significand : Nat) : Int -> Nat
  | .ofNat e => significand * 2 ^ e * 10 ^ digits
  | .negSucc e => roundHalfEven (significand * 10 ^ digits) (2 ^ (e + 1))

def withPoint (digits n : Nat) : CString :=
  if digits = 0 then
    decimal n
  else
    decimal (n / 10 ^ digits) ++
      '.' :: List.leftpad digits '0' (decimal (n % 10 ^ digits))

def printSign (negative : Bool) : CString :=
  if negative then ['-'] else []

/-- `%.nf`, where `%f` is `%.6f`. -/
def printFixed (digits : Nat) : Double -> CString
  | .finite negative significand exponent =>
      printSign negative ++
        withPoint digits (scaled digits significand exponent)
  | .infinite negative => printSign negative ++ "inf".toList
  | .nan negative => printSign negative ++ "nan".toList

def NumberChar (c : Char) : Prop :=
  c.isDigit = true ∨ c ∈ "-.infa".toList

theorem NumberChar.ne {c d : Char} (h : NumberChar c) (hd : ¬ NumberChar d) :
    c ≠ d := by
  rintro rfl
  exact hd h

theorem decimal_injective {m n : Nat} (h : decimal m = decimal n) : m = n := by
  rw [← Nat.ofDigitChars_ten_toDigits (n := m),
    ← Nat.ofDigitChars_ten_toDigits (n := n)]
  exact congrArg (fun digits => Nat.ofDigitChars 10 digits 0) h

theorem mem_toDigits {b n : Nat} {c : Char} (hb : 1 < b)
    (h : c ∈ Nat.toDigits b n) : exists d, d < b ∧ c = Nat.digitChar d := by
  induction n using Nat.strong_induction_on with
  | h n ih =>
      rw [Nat.toDigits_eq_if hb] at h
      split at h
      next hsmall => exact ⟨n, hsmall, List.mem_singleton.mp h⟩
      next hlarge =>
        have hn : 0 < n := by omega
        rcases List.mem_append.mp h with hfront | hlast
        · exact ih (n / b) (Nat.div_lt_self hn hb) hfront
        · exact ⟨n % b, Nat.mod_lt n (Nat.lt_trans Nat.zero_lt_one hb),
            List.mem_singleton.mp hlast⟩

theorem decimal_isDigit {n : Nat} {c : Char} (h : c ∈ decimal n) :
    c.isDigit = true :=
  Nat.isDigit_of_mem_toDigits (by decide) (by decide) h

theorem printInt_numberChar {n : Int} {c : Char} (h : c ∈ printInt n) :
    NumberChar c := by
  cases n with
  | ofNat n => exact Or.inl (decimal_isDigit h)
  | negSucc n =>
      rcases List.mem_cons.mp h with rfl | hmem
      · exact Or.inr (by decide)
      · exact Or.inl (decimal_isDigit hmem)

theorem printSign_numberChar {negative : Bool} {c : Char}
    (h : c ∈ printSign negative) : NumberChar c := by
  cases negative with
  | false => cases h
  | true =>
      rw [List.mem_singleton.mp h]
      exact Or.inr (by decide)

theorem withPoint_numberChar {digits n : Nat} {c : Char}
    (h : c ∈ withPoint digits n) : NumberChar c := by
  unfold withPoint at h
  split at h
  · exact Or.inl (decimal_isDigit h)
  · rcases List.mem_append.mp h with hwhole | htail
    · exact Or.inl (decimal_isDigit hwhole)
    · rcases List.mem_cons.mp htail with rfl | hfraction
      · exact Or.inr (by decide)
      · rcases List.mem_append.mp hfraction with hzero | hdigit
        · rw [List.eq_of_mem_replicate hzero]
          exact Or.inl (by decide)
        · exact Or.inl (decimal_isDigit hdigit)

theorem printFixed_numberChar {digits : Nat} {x : Double} {c : Char}
    (h : c ∈ printFixed digits x) : NumberChar c := by
  cases x with
  | finite negative significand exponent =>
      rcases List.mem_append.mp h with hsign | hnumber
      · exact printSign_numberChar hsign
      · exact withPoint_numberChar hnumber
  | infinite negative =>
      rcases List.mem_append.mp h with hsign | hword
      · exact printSign_numberChar hsign
      · have hall : ("inf".toList.all "-.infa".toList.contains) = true := by
          decide
        exact Or.inr (by simpa using List.all_eq_true.mp hall c hword)
  | nan negative =>
      rcases List.mem_append.mp h with hsign | hword
      · exact printSign_numberChar hsign
      · have hall : ("nan".toList.all "-.infa".toList.contains) = true := by
          decide
        exact Or.inr (by simpa using List.all_eq_true.mp hall c hword)

/-- Printed as a signed number, a 64-bit counter keeps its value below `2 ^ 63`
only. -/
theorem printInt_signed_iff (n : UInt64) :
    printInt n.toBitVec.toInt = decimal n.toNat <-> n.toNat < 2 ^ 63 := by
  have hsigned := BitVec.toInt_eq_toNat_cond n.toBitVec
  rw [UInt64.toNat_toBitVec] at hsigned
  have hbound := n.toNat_lt
  by_cases hsmall : n.toNat < 2 ^ 63
  · rw [if_pos (by omega)] at hsigned
    rw [hsigned]
    exact ⟨fun _ => hsmall, fun _ => rfl⟩
  · rw [if_neg (by omega)] at hsigned
    refine ⟨fun heq => ?_, fun hlt => absurd hlt hsmall⟩
    cases hn : n.toBitVec.toInt with
    | ofNat m =>
        rw [hn] at hsigned
        have hcast : Int.ofNat m = (m : Int) := rfl
        omega
    | negSucc m =>
        rw [hn] at heq
        have hminus : '-' ∈ decimal n.toNat := by
          rw [← heq]
          exact List.mem_cons_self
        exact absurd (decimal_isDigit hminus) (by decide)

end Foundation
end Breakin
