import Mathlib.Data.List.DropRight
import Breakin.Foundation.CString

/-!
# Field splitting

A shell splits what an unquoted expansion gives at runs of blanks.  Words without a
blank in them survive being put together and split again.
-/

namespace Breakin
namespace Foundation

def isIfs (c : Char) : Bool :=
  c == ' ' || c == '\t' || c == '\n'

def flushWord (word : List Char) : List (List Char) :=
  if word = [] then [] else [word]

def wordsFrom (word : List Char) : List Char -> List (List Char)
  | [] => flushWord word
  | c :: rest =>
      if isIfs c then flushWord word ++ wordsFrom [] rest
      else wordsFrom (word ++ [c]) rest

def words (text : List Char) : List (List Char) :=
  wordsFrom [] text

structure IsField (word : List Char) : Prop where
  nonempty : word ≠ []
  solid : forall c, c ∈ word -> isIfs c = false

theorem wordsFrom_append {solid : List Char}
    (h : forall c, c ∈ solid -> isIfs c = false) (word rest : List Char) :
    wordsFrom word (solid ++ rest) = wordsFrom (word ++ solid) rest := by
  induction solid generalizing word with
  | nil => rw [List.nil_append, List.append_nil]
  | cons c solid ih =>
      rw [List.forall_mem_cons] at h
      rw [List.cons_append, wordsFrom, h.left, if_neg Bool.false_ne_true,
        ih h.right, List.append_assoc]
      rfl

@[simp] theorem words_nil : words [] = [] := rfl

@[simp] theorem words_blank (rest : List Char) :
    words (' ' :: rest) = words rest := rfl

theorem words_field {word : List Char} (h : IsField word) : words word = [word] := by
  have hsplit := wordsFrom_append h.solid [] []
  rw [List.append_nil, List.nil_append] at hsplit
  unfold words
  rw [hsplit, wordsFrom, flushWord, if_neg h.nonempty]

theorem words_field_sep {word : List Char} (h : IsField word) {c : Char}
    (hc : isIfs c = true) (rest : List Char) :
    words (word ++ c :: rest) = word :: words rest := by
  unfold words
  rw [wordsFrom_append h.solid, List.nil_append, wordsFrom, if_pos hc, flushWord,
    if_neg h.nonempty]
  rfl

theorem words_field_blank {word : List Char} (h : IsField word)
    (rest : List Char) : words (word ++ ' ' :: rest) = word :: words rest :=
  words_field_sep h (by decide) rest

theorem wordsFrom_concat {c : Char} (hc : isIfs c = true) (word text : List Char) :
    wordsFrom word (text ++ [c]) = wordsFrom word text := by
  induction text generalizing word with
  | nil =>
      show wordsFrom word [c] = flushWord word
      rw [wordsFrom.eq_2, if_pos hc]
      exact List.append_nil _
  | cons d text ih =>
      rw [List.cons_append, wordsFrom, wordsFrom, ih [], ih (word ++ [d])]

theorem words_rdropWhile {p : Char -> Bool} (hp : forall c, p c = true -> isIfs c = true)
    (text : List Char) : words (text.rdropWhile p) = words text := by
  induction text using List.reverseRecOn with
  | nil => rfl
  | append_singleton text c ih =>
      by_cases hc : p c = true
      · rw [List.rdropWhile_concat_pos _ _ _ hc, ih]
        exact (wordsFrom_concat (hp c hc) [] text).symm
      · rw [List.rdropWhile_concat_neg _ _ _ hc]

/-!
# Words with a blank between them
-/

def unwords : List (List Char) -> List Char
  | [] => []
  | [word] => word
  | word :: rest => word ++ ' ' :: unwords rest

theorem unwords_cons_ne (word : List Char) {rest : List (List Char)}
    (h : rest ≠ []) : unwords (word :: rest) = word ++ ' ' :: unwords rest := by
  cases rest with
  | nil => exact absurd rfl h
  | cons next rest => rfl

theorem unwords_append {front back : List (List Char)} (hfront : front ≠ [])
    (hback : back ≠ []) :
    unwords (front ++ back) = unwords front ++ ' ' :: unwords back := by
  induction front with
  | nil => exact absurd rfl hfront
  | cons word rest ih =>
      cases rest with
      | nil => exact unwords_cons_ne word hback
      | cons next rest =>
          rw [List.cons_append, unwords_cons_ne word (by simp),
            ih (List.cons_ne_nil next rest), unwords_cons_ne word (by simp),
            List.append_assoc]
          rfl

theorem words_unwords {list : List (List Char)} (h : forall w, w ∈ list -> IsField w) :
    words (unwords list) = list := by
  induction list with
  | nil => rfl
  | cons word rest ih =>
      rw [List.forall_mem_cons] at h
      cases rest with
      | nil => exact words_field h.left
      | cons next rest =>
          rw [unwords_cons_ne word (by simp), words_field_blank h.left, ih h.right]

/-!
# Columns
-/

theorem takeWhile_ne_append {sep : Char} {left : List Char} (h : sep ∉ left)
    (right : List Char) :
    (left ++ sep :: right).takeWhile (· != sep) = left ∧
      (left ++ sep :: right).dropWhile (· != sep) = sep :: right := by
  induction left with
  | nil => simp
  | cons c left ih =>
      rw [List.mem_cons, not_or] at h
      have hc : (c != sep) = true := by simpa using Ne.symm h.left
      rcases ih h.right with ⟨htake, hdrop⟩
      simp [hc, htake, hdrop]

/-- `cut` with this delimiter and one field: a line without the delimiter is printed
as a whole. -/
def cutField (delim : Char) (n : Nat) (line : List Char) : List Char :=
  if line.contains delim then
    ((line.splitOnP fun c => c == delim)[n - 1]?).getD []
  else
    line

theorem mem_of_mem_splitOnP {p : α -> Bool} {l piece : List α}
    (h : piece ∈ l.splitOnP p) {a : α} (ha : a ∈ piece) : a ∈ l := by
  induction l generalizing piece with
  | nil =>
      rw [List.splitOnP_nil, List.mem_singleton] at h
      rw [h] at ha
      exact ha
  | cons b l ih =>
      rw [List.splitOnP_cons_eq_if_modifyHead] at h
      split at h
      · rcases List.mem_cons.mp h with hnil | hlater
        · rw [hnil] at ha
          cases ha
        · exact List.mem_cons_of_mem b (ih hlater ha)
      · cases hpieces : l.splitOnP p with
        | nil =>
            rw [hpieces] at h
            cases h
        | cons first pieces =>
            rw [hpieces] at h ih
            rcases List.mem_cons.mp h with hfirst | hlater
            · rw [hfirst] at ha
              rcases List.mem_cons.mp ha with heq | hin
              · exact heq ▸ List.mem_cons_self
              · exact List.mem_cons_of_mem b (ih List.mem_cons_self hin)
            · exact List.mem_cons_of_mem b (ih (List.mem_cons_of_mem _ hlater) ha)

theorem mem_of_mem_cutField {delim : Char} {n : Nat} {line : List Char} {c : Char}
    (h : c ∈ cutField delim n line) : c ∈ line := by
  unfold cutField at h
  split at h
  · cases hpiece : (line.splitOnP fun c => c == delim)[n - 1]? with
    | none =>
        rw [hpiece] at h
        cases h
    | some piece =>
        rw [hpiece] at h
        exact mem_of_mem_splitOnP (List.mem_of_getElem? hpiece) h
  · exact h

/-- `cut` with several fields: those that the line has. -/
def cutFields (delim : Char) (fields : List Nat) (line : List Char) : List Char :=
  if line.contains delim then
    [delim].intercalate (fields.filterMap fun n =>
      (line.splitOnP fun c => c == delim)[n - 1]?)
  else
    line

/-- `sed s/word//` on one line, for a word without special characters. -/
def removeFirst (word : List Char) : List Char -> List Char
  | [] => []
  | c :: rest =>
      if word.isPrefixOf (c :: rest) then (c :: rest).drop word.length
      else c :: removeFirst word rest

theorem removeFirst_of_not_infix {word line : List Char} (h : ¬ word <:+: line) :
    removeFirst word line = line := by
  induction line with
  | nil => rfl
  | cons c rest ih =>
      have hbegins : word.isPrefixOf (c :: rest) ≠ true := fun hp =>
        h (List.isPrefixOf_iff_prefix.mp hp).isInfix
      have hrest : ¬ word <:+: rest := fun hin =>
        h (hin.trans (List.suffix_cons c rest).isInfix)
      rw [removeFirst, if_neg hbegins, ih hrest]

/-- What is removed from the front of a line, up to a character that the word does not
have, is as if the rest was not there. -/
theorem removeFirst_append {word right : List Char} {sep : Char} (hsep : sep ∉ word)
    (hright : ¬ word <:+: right) (left : List Char) :
    removeFirst word (left ++ sep :: right) =
      removeFirst word left ++ sep :: right := by
  -- a word that begins in front of the separator ends there as well
  have hbegins : forall left : List Char,
      word.isPrefixOf (left ++ sep :: right) = true -> word <+: left := by
    intro left hp
    rcases List.isPrefixOf_iff_prefix.mp hp with ⟨rest, hrest⟩
    rcases List.append_eq_append_iff.mp hrest with ⟨more, hleft, _⟩ | ⟨more, hword, hmore⟩
    · exact ⟨more, hleft.symm⟩
    · cases more with
      | nil =>
          have hleft : word = left := by rw [hword, List.append_nil]
          exact hleft ▸ List.prefix_rfl
      | cons c more =>
          injection hmore with hc
          rw [hword, ← hc] at hsep
          exact absurd (List.mem_append_right _ List.mem_cons_self) hsep
  induction left with
  | nil =>
      have hnot : ¬ word <:+: sep :: right := by
        intro hin
        rcases List.infix_cons_iff.mp hin with hp | hlater
        · have hnil : word = [] :=
            List.prefix_nil.mp (hbegins [] (List.isPrefixOf_iff_prefix.mpr hp))
          exact hright (hnil ▸ List.nil_infix)
        · exact hright hlater
      rw [List.nil_append, removeFirst_of_not_infix hnot]
      rfl
  | cons c left ih =>
      rw [List.cons_append, removeFirst, removeFirst]
      split
      · rename_i hp
        have hleft := hbegins (c :: left) hp
        rw [if_pos (List.isPrefixOf_iff_prefix.mpr hleft), ← List.cons_append,
          List.drop_append_of_le_length hleft.length_le]
      · rename_i hp
        have hnot : ¬ word.isPrefixOf (c :: left) = true := by
          intro hleft
          apply hp
          rw [← List.cons_append]
          exact List.isPrefixOf_iff_prefix.mpr
            ((List.isPrefixOf_iff_prefix.mp hleft).trans (List.prefix_append _ _))
        rw [if_neg hnot, ih]
        rfl

theorem cutFields_one_five {delim : Char} {a b c d e : List Char}
    (h : forall field, field ∈ [a, b, c, d, e] -> delim ∉ field) :
    cutFields delim [1, 5] (a ++ delim :: (b ++ delim :: (c ++ delim ::
      (d ++ delim :: e)))) = a ++ delim :: e := by
  have hfree : forall field, field ∈ [a, b, c, d, e] ->
      forall x, x ∈ field -> (x == delim) = false := by
    intro field hfield x hx
    rw [beq_eq_false_iff_ne]
    intro heq
    exact h field hfield (heq ▸ hx)
  have hsep : (delim == delim) = true := beq_self_eq_true delim
  have hsplit : (a ++ delim :: (b ++ delim :: (c ++ delim ::
      (d ++ delim :: e)))).splitOnP (fun x => x == delim) = [a, b, c, d, e] := by
    rw [List.splitOnP_append_cons_of_forall_mem (hfree a (by simp)) delim hsep,
      List.splitOnP_append_cons_of_forall_mem (hfree b (by simp)) delim hsep,
      List.splitOnP_append_cons_of_forall_mem (hfree c (by simp)) delim hsep,
      List.splitOnP_append_cons_of_forall_mem (hfree d (by simp)) delim hsep,
      List.splitOnP_eq_singleton (hfree e (by simp))]
  unfold cutFields
  rw [if_pos (by simp), hsplit]
  simp [List.intercalate]

end Foundation
end Breakin
