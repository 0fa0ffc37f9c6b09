import Mathlib.Data.List.TakeWhile

/-!
# C strings and line input

A C string is the list of its characters before the terminating NUL.  A buffer
that may hold NULs inside its data is a longer character list, read as a C string
by cutting it at the first NUL.
-/

namespace Breakin
namespace Foundation

abbrev CString := List Char

def NUL : Char := Char.ofNat 0

def cstr (buf : List Char) : CString :=
  buf.takeWhile (fun c => c != NUL)

/-- What `snprintf` with a buffer of `size` bytes keeps of a text. -/
def snprintf (size : Nat) (text : CString) : CString :=
  text.take (size - 1)

/-- `strncmp(s, word, strlen(word)) == 0`. -/
def startsWith (word s : CString) : Bool :=
  s.take word.length == word

theorem cstr_cons {c : Char} (hc : c ≠ NUL) (rest : List Char) :
    cstr (c :: rest) = c :: cstr rest :=
  List.takeWhile_cons_of_pos (by simp [hc])

theorem cstr_append_nul {s : CString} (h : NUL ∉ s) (post : List Char) :
    cstr (s ++ NUL :: post) = s := by
  unfold cstr
  rw [List.takeWhile_append_of_pos, List.takeWhile_cons_of_neg]
  · exact List.append_nil s
  · simp
  · intro c hc
    rw [bne_iff_ne]
    intro heq
    exact h (heq ▸ hc)

theorem cstr_append_of_mem {x : List Char} (h : NUL ∈ x) (y : List Char) :
    cstr (x ++ y) = cstr x := by
  induction x with
  | nil => cases h
  | cons c x ih =>
      by_cases hc : c = NUL
      · rw [hc]
        rfl
      · have hin : NUL ∈ x := (List.mem_cons.mp h).resolve_left (Ne.symm hc)
        rw [List.cons_append, cstr_cons hc, cstr_cons hc, ih hin]

theorem snprintf_eq_self {size : Nat} {text : CString}
    (h : text.length < size) : snprintf size text = text := by
  apply List.take_of_length_le
  omega

theorem snprintf_eq_self_iff {size : Nat} {text : CString} (hsize : 0 < size) :
    snprintf size text = text <-> text.length < size := by
  constructor
  · intro heq
    have hlen := congrArg List.length heq
    simp only [snprintf, List.length_take] at hlen
    omega
  · exact snprintf_eq_self

/-!
# Reading lines

`fgets` takes characters up to and including the next newline, at most one less
than the size of its buffer.  On a non-blocking stream it returns what has
arrived so far when the next read would block, and NULL when nothing has.
-/

def firstLine : List Char -> List Char
  | [] => []
  | c :: rest => if c = '\n' then [c] else c :: firstLine rest

def fgets (size : Nat) (avail : List Char) :
    Option (List Char × List Char) :=
  match avail with
  | [] => none
  | _ :: _ =>
      let line := (firstLine avail).take (size - 1)
      some (line, avail.drop line.length)

theorem firstLine_isPrefix (avail : List Char) : firstLine avail <+: avail := by
  induction avail with
  | nil => exact List.nil_prefix
  | cons c rest ih =>
      by_cases hc : c = '\n'
      · simp [firstLine, hc]
      · simpa [firstLine, hc, List.cons_prefix_cons] using ih

@[simp] theorem fgets_nil (size : Nat) : fgets size [] = none := rfl

theorem fgets_eq_none {size : Nat} {avail : List Char} :
    fgets size avail = none <-> avail = [] := by
  cases avail <;> simp [fgets]

theorem fgets_append {size : Nat} {avail line rest : List Char}
    (h : fgets size avail = some (line, rest)) : line ++ rest = avail := by
  cases avail with
  | nil => cases h
  | cons c more =>
      simp only [fgets, Option.some.injEq, Prod.mk.injEq] at h
      rcases h with ⟨hline, hrest⟩
      have hpre : line <+: c :: more := by
        rw [← hline]
        have htake := List.take_prefix (size - 1) (firstLine (c :: more))
        exact htake.trans (firstLine_isPrefix _)
      rw [← hrest, hline]
      rcases hpre with ⟨tail, htail⟩
      rw [← htail, List.drop_left]

end Foundation
end Breakin
