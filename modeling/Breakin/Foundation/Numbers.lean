import Mathlib.Algebra.Order.Ring.Nat
import Breakin.Foundation.Printf

/-!
# Numbers read from text

The decimal integer that `atoll` and its like and the `%d` of `sscanf` find at the
front of a string, and the `double` nearest to an integer.
-/

namespace Breakin
namespace Foundation

def isSpace (c : Char) : Bool :=
  c == ' ' || (decide (9 ≤ c.toNat) && decide (c.toNat ≤ 13))

def digitsValue (digits : List Char) : Nat :=
  digits.foldl (fun n c => 10 * n + (c.toNat - '0'.toNat)) 0

def unsignedAt (s : CString) : Option Nat :=
  let digits := s.takeWhile Char.isDigit
  if digits = [] then none else some (digitsValue digits)

def integerAt : CString -> Option Int
  | '-' :: rest => (unsignedAt rest).map fun n => -(n : Int)
  | '+' :: rest => (unsignedAt rest).map fun n => (n : Int)
  | s => (unsignedAt s).map fun n => (n : Int)

/-- What `strtoll` makes of an integer too large for it. -/
def clampLong (n : Int) : Int :=
  max (-2 ^ 63) (min n (2 ^ 63 - 1))

def atoll (s : CString) : Int :=
  match integerAt (s.dropWhile isSpace) with
  | none => 0
  | some n => clampLong n

/-- `atoi` is `strtol` cut down to an `int`. -/
def atoi (s : CString) : Int32 :=
  Int32.ofInt (atoll s)

/-- `strtoull`: a minus sign negates modulo `2 ^ 64`, and what is too large gives
the largest value. -/
def strtoull (s : CString) : UInt64 :=
  match integerAt (s.dropWhile isSpace) with
  | none => 0
  | some n =>
      if n.natAbs < 2 ^ 64 then UInt64.ofInt n else UInt64.ofNat (2 ^ 64 - 1)

/-- The result of `sscanf(s, "%d", &value)`. -/
inductive ScanResult where
  | endOfInput
  | noMatch
  | matched (value : Int32)
deriving DecidableEq

/-- The library converts to a `long` and keeps its low 32 bits. -/
def scanInt (s : CString) : ScanResult :=
  match s.dropWhile isSpace with
  | [] => .endOfInput
  | c :: rest =>
      match integerAt (c :: rest) with
      | none => .noMatch
      | some n => .matched (Int32.ofInt (clampLong n))

def withoutSign : CString -> CString
  | '-' :: rest => rest
  | '+' :: rest => rest
  | s => s

/-- The integer that a word is for the `-gt` of a shell, if it is one. -/
def testOperand (word : CString) : Option Int :=
  if (withoutSign word).all Char.isDigit then
    (integerAt word).filter fun n => clampLong n = n
  else none

/-- `[ word -gt n ]`; a word that is no integer is an error, which is not success. -/
def testGreater (word : CString) (n : Int) : Bool :=
  match testOperand word with
  | none => false
  | some m => decide (n < m)

/-- The `double` nearest to an integer, ties to even. -/
def Double.ofInt (n : Int) : Double :=
  if n.natAbs < 2 ^ 53 then .finite (decide (n < 0)) n.natAbs 0
  else
    let shift := Nat.log2 n.natAbs - 52
    .finite (decide (n < 0)) (roundHalfEven n.natAbs (2 ^ shift)) shift

def Double.shiftDown (k : Nat) : Double -> Double
  | .finite negative significand exponent =>
      .finite negative significand (exponent - k)
  | .infinite negative => .infinite negative
  | .nan negative => .nan negative

/-!
# Reading a string that ends early

A NUL ends what is read, and it is neither a blank nor a part of a number.
-/

theorem takeWhile_isDigit_cstr (s : List Char) :
    (cstr s).takeWhile Char.isDigit = s.takeWhile Char.isDigit := by
  induction s with
  | nil => rfl
  | cons c s ih =>
      by_cases hc : c = NUL
      · rw [hc]
        rfl
      · rw [cstr_cons hc, List.takeWhile_cons, List.takeWhile_cons, ih]

theorem unsignedAt_cstr (s : List Char) :
    unsignedAt (cstr s) = unsignedAt s := by
  unfold unsignedAt
  rw [takeWhile_isDigit_cstr]

theorem dropWhile_isSpace_cstr (s : List Char) :
    (cstr s).dropWhile isSpace = cstr (s.dropWhile isSpace) := by
  induction s with
  | nil => rfl
  | cons c s ih =>
      by_cases hc : c = NUL
      · rw [hc]
        rfl
      · have hcut := cstr_cons hc s
        by_cases hspace : isSpace c = true
        · rw [hcut, List.dropWhile_cons_of_pos hspace,
            List.dropWhile_cons_of_pos hspace, ih]
        · rw [hcut, List.dropWhile_cons_of_neg hspace,
            List.dropWhile_cons_of_neg hspace, hcut]

theorem integerAt_cstr (s : List Char) : integerAt (cstr s) = integerAt s := by
  cases s with
  | nil => rfl
  | cons c s =>
      by_cases hc : c = NUL
      · rw [hc]
        rfl
      · have hwhole := unsignedAt_cstr (c :: s)
        rw [cstr_cons hc] at hwhole ⊢
        by_cases hminus : c = '-'
        · rw [hminus, integerAt, integerAt, unsignedAt_cstr]
        · by_cases hplus : c = '+'
          · rw [hplus, integerAt, integerAt, unsignedAt_cstr]
          · simp [integerAt, hminus, hplus, hwhole]

/-- The low 32 bits are the integer exactly when it is an `int`. -/
theorem clampLong_toInt32 (n : Int) :
    (Int32.ofInt (clampLong n)).toInt = n <->
      -2 ^ 31 ≤ n ∧ n < 2 ^ 31 := by
  constructor
  · intro h
    rw [← h]
    exact ⟨Int32.le_toInt _, Int32.toInt_lt _⟩
  · intro h
    have hclamp : clampLong n = n := by
      unfold clampLong
      omega
    rw [hclamp]
    exact Int32.toInt_ofInt_of_le h.left h.right

theorem scanInt_cases (s : List Char) :
    (scanInt (cstr s) = .endOfInput ∧
        (forall c, c ∈ cstr s -> isSpace c = true) ∧
          integerAt (s.dropWhile isSpace) = none) ∨
      (exists c, c ∈ cstr s ∧ isSpace c = false) ∧
        ((scanInt (cstr s) = .noMatch ∧
            integerAt (s.dropWhile isSpace) = none) ∨
          exists n, scanInt (cstr s) = .matched (Int32.ofInt (clampLong n)) ∧
            integerAt (s.dropWhile isSpace) = some n) := by
  rw [← integerAt_cstr (s.dropWhile isSpace), ← dropWhile_isSpace_cstr]
  unfold scanInt
  cases hrest : (cstr s).dropWhile isSpace with
  | nil =>
      left
      exact ⟨rfl, List.dropWhile_eq_nil_iff.mp hrest, rfl⟩
  | cons c rest =>
      right
      constructor
      · exists c
        have hmem : c ∈ (cstr s).dropWhile isSpace := by
          rw [hrest]
          exact List.mem_cons_self ..
        have hhead := List.head_dropWhile_not isSpace (l := cstr s)
          (by rw [hrest]; simp)
        simp only [hrest, List.head_cons] at hhead
        exact ⟨(List.dropWhile_sublist isSpace).subset hmem, hhead⟩
      · cases hread : integerAt (c :: rest) with
        | none =>
            left
            simp only [hread]
            trivial
        | some n =>
            right
            exists n
            simp only [hread]
            trivial

/-!
# Reading what was printed
-/

theorem digitsValue_decimal (n : Nat) : digitsValue (decimal n) = n := by
  unfold digitsValue decimal
  rw [← Nat.ofDigitChars_eq_foldl, Nat.ofDigitChars_ten_toDigits]

theorem decimal_all_isDigit (n : Nat) :
    (decimal n).all Char.isDigit = true :=
  List.all_eq_true.mpr fun _ hc => decimal_isDigit hc

theorem unsignedAt_decimal (n : Nat) : unsignedAt (decimal n) = some n := by
  have hwhole : (decimal n).takeWhile Char.isDigit = decimal n :=
    List.takeWhile_eq_self_iff.mpr fun _ hc => decimal_isDigit hc
  have hsome : decimal n ≠ [] := Nat.toDigits_ne_nil
  simp only [unsignedAt, hwhole, hsome, if_false, digitsValue_decimal]

theorem decimal_unsigned (n : Nat) :
    withoutSign (decimal n) = decimal n ∧
      integerAt (decimal n) = some (n : Int) := by
  have hvalue := unsignedAt_decimal n
  cases hlist : decimal n with
  | nil => exact absurd hlist Nat.toDigits_ne_nil
  | cons c rest =>
      have hdigit : c.isDigit = true := by
        apply @decimal_isDigit n
        rw [hlist]
        exact List.mem_cons_self ..
      have hminus : c ≠ '-' := by
        rintro rfl
        exact absurd hdigit (by decide)
      have hplus : c ≠ '+' := by
        rintro rfl
        exact absurd hdigit (by decide)
      rw [hlist] at hvalue
      simp [withoutSign, integerAt, hminus, hplus, hvalue]

theorem testOperand_printInt {n : Int} (h : clampLong n = n) :
    testOperand (printInt n) = some n := by
  cases n with
  | ofNat n =>
      rcases decimal_unsigned n with ⟨hsame, hvalue⟩
      change testOperand (decimal n) = some (n : Int)
      unfold testOperand
      rw [hsame, decimal_all_isDigit, if_pos rfl, hvalue]
      exact Option.filter_eq_some_iff.mpr ⟨rfl, decide_eq_true h⟩
  | negSucc n =>
      have hdigits : (withoutSign (printInt (.negSucc n))).all Char.isDigit =
          true := decimal_all_isDigit (n + 1)
      have hvalue : integerAt (printInt (.negSucc n)) = some (.negSucc n) := by
        change (unsignedAt (decimal (n + 1))).map (fun m => -(m : Int)) = _
        rw [unsignedAt_decimal]
        rfl
      unfold testOperand
      rw [hdigits, if_pos rfl, hvalue]
      exact Option.filter_eq_some_iff.mpr ⟨rfl, decide_eq_true h⟩

theorem testGreater_printInt {m : Int} (h : clampLong m = m) (n : Int) :
    testGreater (printInt m) n = true <-> n < m := by
  unfold testGreater
  rw [testOperand_printInt h]
  exact decide_eq_true_iff

theorem decimal_append_injective {m n : Nat} {c : Char} (hc : c.isDigit = false)
    {rest rest' : CString} (h : decimal m ++ c :: rest = decimal n ++ c :: rest') :
    m = n ∧ rest = rest' := by
  have hfront : forall (k : Nat) (more : CString),
      (decimal k ++ c :: more).takeWhile Char.isDigit = decimal k := by
    intro k more
    rw [List.takeWhile_append_of_pos (fun _ hd => decimal_isDigit hd),
      List.takeWhile_cons_of_neg (by simp [hc]), List.append_nil]
  have hsame : decimal m = decimal n := by
    rw [← hfront m rest, h, hfront]
  rw [hsame] at h
  exact ⟨decimal_injective hsame, (List.cons.inj (List.append_cancel_left h)).right⟩

example : Double.shiftDown 21 (Double.ofInt (atoll "4194304 ".toList)) =
    .finite false 4194304 (-21) := by decide

end Foundation
end Breakin
