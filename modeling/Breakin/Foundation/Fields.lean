import Breakin.Foundation.Buffer
import Breakin.Foundation.CString

/-!
# Fields of a line in a buffer

`fgets` puts a line over the front of a buffer, and `strsep` cuts it at its
delimiters in place.  What the buffer held before stays behind the line.
-/

namespace Breakin
namespace Foundation

/-- The buffer after `fgets` has read a line into it. -/
def fgetsInto (buf line : List Char) : List Char :=
  line ++ NUL :: buf.drop (line.length + 1)

def fieldAt (delim : Char) (cells : List Char) : CString :=
  cells.takeWhile fun c => c != delim && c != NUL

/-- `strsep(&string, delim)` with `string` in the buffer: the field starts where
`string` was; here are the buffer and `string` after the call. -/
def strsep (delim : Char) (buf : List Char) (string : Nat) :
    List Char × Option Nat :=
  let stop := string + (fieldAt delim (buf.drop string)).length
  if buf[stop]? = some delim then (buf.set stop NUL, some (stop + 1))
  else (buf, none)

theorem fgetsInto_length {buf line : List Char} (h : line.length < buf.length) :
    (fgetsInto buf line).length = buf.length := by
  unfold fgetsInto
  rw [List.length_append, List.length_cons, List.length_drop]
  omega

/-!
# One field
-/

section OneField

variable {delim : Char}

theorem fieldAt_not_mem (delim : Char) (cells : List Char) :
    delim ∉ fieldAt delim cells ∧ NUL ∉ fieldAt delim cells := by
  constructor
  · intro h
    have hp := List.mem_takeWhile_imp h
    simp at hp
  · intro h
    have hp := List.mem_takeWhile_imp h
    simp at hp

theorem fieldAt_append {field : List Char} (hdelim : delim ∉ field)
    (hnul : NUL ∉ field) {stop : Char} (hstop : stop = delim ∨ stop = NUL)
    (rest : List Char) : fieldAt delim (field ++ stop :: rest) = field := by
  unfold fieldAt
  rw [List.takeWhile_append_of_pos, List.takeWhile_cons_of_neg,
    List.append_nil]
  · rcases hstop with h | h
    · simp [h]
    · simp [h]
  · intro c hc
    rw [Bool.and_eq_true, bne_iff_ne, bne_iff_ne]
    exact ⟨fun h => hdelim (h ▸ hc), fun h => hnul (h ▸ hc)⟩

theorem fieldAt_split (delim : Char) {cells : List Char} (h : NUL ∈ cells) :
    exists stop rest, (stop = delim ∨ stop = NUL) ∧
      cells = fieldAt delim cells ++ stop :: rest := by
  induction cells with
  | nil => cases h
  | cons c cells ih =>
      by_cases hstop : c = delim ∨ c = NUL
      · have hfield : fieldAt delim (c :: cells) = [] := by
          apply List.takeWhile_cons_of_neg
          rcases hstop with h | h
          · simp [h]
          · simp [h]
        exact ⟨c, cells, hstop, by rw [hfield]; rfl⟩
      · rw [not_or] at hstop
        have hcells : NUL ∈ cells :=
          (List.mem_cons.mp h).resolve_left (Ne.symm hstop.right)
        rcases ih hcells with ⟨stop, rest, hend, heq⟩
        have hfield : fieldAt delim (c :: cells) =
            c :: fieldAt delim cells := by
          apply List.takeWhile_cons_of_pos
          simp [hstop.left, hstop.right]
        refine ⟨stop, rest, hend, ?_⟩
        rw [hfield, List.cons_append, ← heq]

theorem strsep_length (delim : Char) (buf : List Char) (string : Nat) :
    (strsep delim buf string).1.length = buf.length := by
  unfold strsep
  by_cases h : buf[string + (fieldAt delim (buf.drop string)).length]? =
      some delim
  · simp [h]
  · simp [h]

theorem strsep_next {buf : List Char} {string next : Nat}
    (h : (strsep delim buf string).2 = some next) :
    string < next ∧ next ≤ buf.length := by
  unfold strsep at h
  by_cases hstop : buf[string + (fieldAt delim (buf.drop string)).length]? =
      some delim
  · simp only [if_pos hstop, Option.some.injEq] at h
    have hlt := (List.getElem?_eq_some_iff.mp hstop).choose
    omega
  · simp [if_neg hstop] at h

theorem strsep_append {field : List Char} (hdelim : delim ∉ field)
    (hnul : NUL ∉ field) (left rest : List Char) :
    strsep delim (left ++ (field ++ delim :: rest)) left.length =
      (left ++ (field ++ NUL :: rest),
        some (left.length + field.length + 1)) := by
  have hread : (left ++ (field ++ delim :: rest))[left.length +
      field.length]? = some delim := by
    rw [← List.append_assoc, ← List.length_append]
    exact read_append _ _ _
  have hset : (left ++ (field ++ delim :: rest)).set
      (left.length + field.length) NUL = left ++ (field ++ NUL :: rest) := by
    rw [List.set_append_right _ _ (Nat.le_add_right _ _),
      Nat.add_sub_cancel_left, List.set_append_right _ _ (Nat.le_refl _),
      Nat.sub_self]
    rfl
  unfold strsep
  rw [List.drop_left, fieldAt_append hdelim hnul (Or.inl rfl), if_pos hread,
    hset]

theorem strsep_last (hne : delim ≠ NUL) {field : List Char}
    (hdelim : delim ∉ field) (hnul : NUL ∉ field) (left rest : List Char) :
    strsep delim (left ++ (field ++ NUL :: rest)) left.length =
      (left ++ (field ++ NUL :: rest), none) := by
  have hread : (left ++ (field ++ NUL :: rest))[left.length +
      field.length]? = some NUL := by
    rw [← List.append_assoc, ← List.length_append]
    exact read_append _ _ _
  unfold strsep
  rw [List.drop_left, fieldAt_append hdelim hnul (Or.inr rfl), if_neg]
  rw [hread, Option.some.injEq]
  exact Ne.symm hne

/-- After the call the field is the string at its place. -/
theorem strsep_text (hne : delim ≠ NUL) {right : List Char} (h : NUL ∈ right)
    (left : List Char) :
    cstr ((strsep delim (left ++ right) left.length).1.drop left.length) =
      fieldAt delim right := by
  rcases fieldAt_split delim h with ⟨stop, rest, hstop, heq⟩
  have hmem := fieldAt_not_mem delim right
  generalize fieldAt delim right = field at heq hmem
  rw [heq]
  rcases hstop with hstop | hstop
  · rw [hstop, strsep_append hmem.left hmem.right]
    rw [List.drop_left, cstr_append_nul hmem.right]
  · rw [hstop, strsep_last hne hmem.left hmem.right]
    rw [List.drop_left, cstr_append_nul hmem.right]

end OneField

end Foundation
end Breakin
