import Mathlib.Data.List.DropRight
import Breakin.Foundation.CString

/-!
# Trimming blanks off a string

The string-level meaning of `trim` in util.c, which every reader of a line of
text in the program applies first.
-/

namespace Breakin
namespace Util

open Foundation

def isBlank (c : Char) : Bool :=
  c == ' ' || c == '\t'

def isTrailing (c : Char) : Bool :=
  c == ' ' || c == '\n' || c == '\r' || c == '\t'

/-- `trim` of util.c on the string itself: the first loop skips leading blanks
and shifts the rest down, the last one cuts trailing blanks and line ends. -/
def trim (s : CString) : CString :=
  (s.dropWhile isBlank).rdropWhile isTrailing

theorem trim_length_le (s : CString) : (trim s).length ≤ s.length := by
  have hlead : (s.dropWhile isBlank).length ≤ s.length :=
    (List.dropWhile_sublist _).length_le
  have hpre := List.rdropWhile_prefix isTrailing (s.dropWhile isBlank)
  have htail : (trim s).length ≤ (s.dropWhile isBlank).length :=
    hpre.length_le
  exact Nat.le_trans htail hlead

theorem trim_isInfix (s : CString) : trim s <:+: s := by
  have hpre := (List.rdropWhile_prefix isTrailing (s.dropWhile isBlank)).isInfix
  exact hpre.trans (List.dropWhile_suffix isBlank).isInfix

/-!
# What trimming keeps

A word without blanks at its ends stays in the string, and all that comes off the
front is blanks.
-/

theorem infix_dropWhile {p : Char -> Bool} {c : Char} {w s : List Char}
    (hc : p c = false) (h : c :: w <:+: s) : c :: w <:+: s.dropWhile p := by
  rcases h with ⟨x, y, heq⟩
  rw [← heq, List.append_assoc, List.dropWhile_append]
  have hstay : (c :: w ++ y).dropWhile p = c :: w ++ y :=
    List.dropWhile_cons_of_neg (by simp [hc])
  by_cases hempty : (x.dropWhile p).isEmpty = true
  · rw [if_pos hempty, hstay]
    exact ⟨[], y, rfl⟩
  · rw [if_neg hempty]
    exact ⟨x.dropWhile p, y, by rw [List.append_assoc]⟩

theorem infix_trim_iff {c d : Char} {w s : List Char}
    (hc : isBlank c = false) (hd : isTrailing d = false) :
    c :: (w ++ [d]) <:+: trim s <-> c :: (w ++ [d]) <:+: s := by
  constructor
  · intro h
    exact h.trans (trim_isInfix s)
  · intro h
    have hfront := infix_dropWhile hc h
    have hback : (c :: (w ++ [d])).reverse <:+:
        (s.dropWhile isBlank).reverse := List.reverse_infix.mpr hfront
    have hword : (c :: (w ++ [d])).reverse = d :: (w.reverse ++ [c]) := by simp
    rw [hword] at hback
    have hcut := List.reverse_infix.mpr (infix_dropWhile hd hback)
    rw [← hword, List.reverse_reverse] at hcut
    exact hcut

theorem dropWhile_drop {p : Char -> Bool} {s : List Char} {n : Nat}
    (h : n ≤ (s.takeWhile p).length) : (s.drop n).dropWhile p = s.dropWhile p := by
  have hsplit : (s.takeWhile p).drop n ++ s.dropWhile p = s.drop n := by
    rw [← List.drop_append_of_le_length h, List.takeWhile_append_dropWhile]
  rw [← hsplit, List.dropWhile_append_of_pos, List.dropWhile_idempotent]
  intro c hc
  exact List.mem_takeWhile_imp (List.mem_of_mem_drop hc)

theorem trim_dropWhile (s : CString) :
    (trim s).dropWhile isBlank = trim s := by
  cases htrim : trim s with
  | nil => rfl
  | cons c rest =>
      -- the first character is that of the string without leading blanks
      have hpre : c :: rest <+: s.dropWhile isBlank := by
        rw [← htrim]
        exact List.rdropWhile_prefix isTrailing _
      rcases hpre with ⟨y, hy⟩
      apply List.dropWhile_cons_of_neg
      intro hblank
      have hsame : (s.dropWhile isBlank).dropWhile isBlank =
          s.dropWhile isBlank := List.dropWhile_idempotent isBlank _
      rw [← hy, List.cons_append, List.dropWhile_cons_of_pos hblank] at hsame
      have hlen := congrArg List.length hsame
      have hle := (List.dropWhile_sublist (l := rest ++ y) isBlank).length_le
      rw [List.length_cons] at hlen
      omega

theorem trim_trim (s : CString) : trim (trim s) = trim s := by
  change ((trim s).dropWhile isBlank).rdropWhile isTrailing = _
  rw [trim_dropWhile]
  exact List.rdropWhile_idempotent isTrailing _

theorem isBlank_of_not_trailing {c : Char} (hc : isTrailing c = false) :
    isBlank c = false := by
  unfold isTrailing at hc
  unfold isBlank
  simp only [Bool.or_eq_false_iff] at hc ⊢
  exact ⟨hc.left.left.left, hc.right⟩

theorem trim_eq_self {s : CString} (h : forall c, c ∈ s -> isTrailing c = false) :
    trim s = s := by
  have hlead : s.dropWhile isBlank = s := by
    cases s with
    | nil => rfl
    | cons c rest =>
        have hc := isBlank_of_not_trailing (h c (List.mem_cons_self ..))
        exact List.dropWhile_cons_of_neg (by rw [hc]; exact Bool.false_ne_true)
  rw [trim, hlead, List.rdropWhile_eq_self_iff]
  intro hne
  rw [h _ (List.getLast_mem hne)]
  exact Bool.false_ne_true

theorem mem_dropWhile_of_not {p : Char -> Bool} {c : Char} {s : List Char}
    (hin : c ∈ s) (hc : p c = false) : c ∈ s.dropWhile p := by
  rw [← List.takeWhile_append_dropWhile (p := p) (l := s)] at hin
  refine (List.mem_append.mp hin).resolve_left fun hlead => ?_
  rw [List.mem_takeWhile_imp hlead] at hc
  cases hc

theorem mem_trim {c : Char} {s : CString} (hin : c ∈ s)
    (hc : isTrailing c = false) : c ∈ trim s := by
  have hbody := mem_dropWhile_of_not hin (isBlank_of_not_trailing hc)
  unfold trim List.rdropWhile
  rw [List.mem_reverse]
  exact mem_dropWhile_of_not (List.mem_reverse.mpr hbody) hc

theorem rdropWhile_append_of_mem {p : Char -> Bool} {c : Char}
    (x : List Char) {y : List Char} (hin : c ∈ y) (hc : p c = false) :
    (x ++ y).rdropWhile p = x ++ y.rdropWhile p := by
  have hne : ¬ (y.reverse.dropWhile p).isEmpty = true := by
    rw [List.isEmpty_iff, List.dropWhile_eq_nil_iff]
    intro hall
    rw [hall c (List.mem_reverse.mpr hin)] at hc
    cases hc
  unfold List.rdropWhile
  rw [List.reverse_append, List.dropWhile_append, if_neg hne,
    List.reverse_append, List.reverse_reverse]

theorem trim_drop {s : CString} {n : Nat}
    (h : n ≤ (s.takeWhile isBlank).length) : trim (s.drop n) = trim s := by
  unfold trim
  rw [dropWhile_drop h]

theorem rdropWhile_append_length {p : Char -> Bool} {x v : List Char}
    (hx : x ≠ []) (hne : (x ++ v).rdropWhile p ≠ []) :
    (v.rdropWhile p).length < ((x ++ v).rdropWhile p).length := by
  unfold List.rdropWhile at hne ⊢
  rw [List.reverse_append, List.dropWhile_append] at hne ⊢
  have hxlen : 0 < x.length := List.length_pos_iff.mpr hx
  by_cases hempty : (v.reverse.dropWhile p).isEmpty = true
  · rw [if_pos hempty] at hne ⊢
    rw [List.isEmpty_iff.mp hempty]
    exact List.length_pos_iff.mpr hne
  · rw [if_neg hempty]
    simp only [List.length_reverse, List.length_append]
    omega

theorem trim_drop_length {s : CString} {n : Nat} (hne : trim s ≠ [])
    (h : (s.takeWhile isBlank).length < n) :
    (trim (s.drop n)).length < (trim s).length := by
  have hbody : s.drop n =
      (s.dropWhile isBlank).drop (n - (s.takeWhile isBlank).length) := by
    conv => lhs; rw [← List.takeWhile_append_dropWhile (p := isBlank) (l := s)]
    rw [List.drop_append, List.drop_eq_nil_of_le (by omega), List.nil_append]
  have hsuffix : (s.drop n).dropWhile isBlank <:+ s.drop n :=
    List.dropWhile_suffix isBlank
  rcases hsuffix with ⟨x, hx⟩
  rw [hbody] at hx
  have hwhole : s.dropWhile isBlank =
      ((s.dropWhile isBlank).take (n - (s.takeWhile isBlank).length) ++ x) ++
        (s.drop n).dropWhile isBlank := by
    rw [List.append_assoc]
    conv => rhs; rw [hbody]
    rw [hx, List.take_append_drop]
  have hfront : (s.dropWhile isBlank).take
      (n - (s.takeWhile isBlank).length) ++ x ≠ [] := by
    intro hnil
    rcases List.append_eq_nil_iff.mp hnil with ⟨htake, _⟩
    rw [List.take_eq_nil_iff] at htake
    rcases htake with hzero | hempty
    · omega
    · exact hne (by unfold trim; rw [hempty, List.rdropWhile_nil])
  unfold trim at hne ⊢
  rw [hwhole] at hne
  have hshorter := rdropWhile_append_length hfront hne
  rw [← hwhole] at hshorter
  exact hshorter

end Util
end Breakin
