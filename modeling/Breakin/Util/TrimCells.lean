import Mathlib.Data.List.Induction
import Breakin.Foundation.Buffer
import Breakin.Util.Trim

/-!
# The loops of trim

`trim` works on the cells of the buffer that holds its string.  Its last loop runs
backwards and is not stopped by the beginning of the string, but by the first cell
that holds something else than a blank or a line end.
-/

namespace Breakin
namespace Util

open Foundation

def skipBlanks : List Char -> Option Nat
  | [] => none
  | c :: rest => if isBlank c then (skipBlanks rest).map (· + 1) else some 0

def shiftLoop (start : Nat) : Nat -> List Char -> Nat -> Option (List Char × Nat)
  | 0, _, _ => none
  | fuel + 1, buf, p => do
      let c ← buf[p]?
      if c = NUL then some (buf, p)
      else
        let buf' ← store buf (p - start) c
        shiftLoop start fuel buf' (p + 1)

/-- The last loop, from the cell in front of `p`.  What lies in front of the
buffer belongs to something else, and holds no blank. -/
def cutTrailing : Nat -> List Char -> Option (List Char)
  | 0, buf => some buf
  | p + 1, buf => do
      let c ← buf[p]?
      if isTrailing c then
        let buf' ← store buf p NUL
        cutTrailing p buf'
      else some buf

/-- `trim(buf + string)`: the buffer afterwards. -/
def trimAt (buf : List Char) (string : Nat) : Option (List Char) := do
  let start ← skipBlanks (buf.drop string)
  let p := string + start
  if 0 < start then
    let shifted ← shiftLoop start buf.length buf p
    let buf' ← store shifted.1 (shifted.2 - start) NUL
    cutTrailing (shifted.2 - start) buf'
  else
    let length ← strlen NUL (buf.drop p)
    cutTrailing (p + length - start) buf

def blankTail (x : List Char) : List Char :=
  x.rdropWhile isTrailing ++
    List.replicate (x.length - (x.rdropWhile isTrailing).length) NUL

/-!
# Loop by loop
-/

theorem skipBlanks_append (s rest : List Char) :
    skipBlanks (s ++ NUL :: rest) = some (s.takeWhile isBlank).length := by
  induction s with
  | nil => rfl
  | cons c s ih =>
      rw [List.cons_append, skipBlanks, ih]
      by_cases hc : isBlank c = true
      · rw [if_pos hc, List.takeWhile_cons_of_pos hc]
        rfl
      · rw [if_neg hc, List.takeWhile_cons_of_neg hc]
        rfl

theorem shiftLoop_append {body : List Char} (hbody : NUL ∉ body)
    {start fuel p : Nat} (hfuel : body.length < fuel) {left gap : List Char}
    (hstart : 0 < start) (hgap : gap.length = start)
    (hp : p = left.length + start) (rest : List Char) :
    shiftLoop start fuel (left ++ (gap ++ (body ++ NUL :: rest))) p =
      some (left ++ (body ++ ((gap ++ body).drop body.length ++ NUL :: rest)),
        p + body.length) := by
  induction body generalizing fuel left gap p with
  | nil =>
      cases fuel with
      | zero => cases hfuel
      | succ fuel =>
          have hread : (left ++ (gap ++ ([] ++ NUL :: rest)))[p]? =
              some NUL := by
            rw [hp, ← hgap, ← List.append_assoc, ← List.length_append]
            exact read_append _ _ _
          simp only [shiftLoop, hread, Option.bind_eq_bind, Option.bind_some,
            if_pos]
          simp
  | cons c body ih =>
      rw [List.mem_cons, not_or] at hbody
      cases fuel with
      | zero => cases hfuel
      | succ fuel =>
          cases gap with
          | nil =>
              rw [← hgap] at hstart
              cases hstart
          | cons g gap =>
              have hread : (left ++ ((g :: gap) ++ ((c :: body) ++
                  NUL :: rest)))[p]? = some c := by
                rw [hp, ← hgap, ← List.append_assoc, ← List.length_append]
                exact read_append _ _ _
              have hstore : store (left ++ ((g :: gap) ++ ((c :: body) ++
                  NUL :: rest))) (p - start) c =
                  some ((left ++ [c]) ++ ((gap ++ [c]) ++ (body ++
                    NUL :: rest))) := by
                rw [hp, Nat.add_sub_cancel]
                have hone := store_append left
                  (gap ++ ((c :: body) ++ NUL :: rest)) g c
                simpa using hone
              have hgap' : (gap ++ [c]).length = start := by
                rw [← hgap, List.length_append]
                rfl
              have hp' : p + 1 = (left ++ [c]).length + start := by
                rw [hp, List.length_append, List.length_singleton]
                omega
              have hnext := ih hbody.right (Nat.lt_of_succ_lt_succ hfuel) hgap'
                hp'
              simp only [shiftLoop, hread, Option.bind_eq_bind,
                Option.bind_some, if_neg (Ne.symm hbody.left), hstore, hnext]
              simp [Nat.add_assoc, Nat.add_comm 1]

theorem blankTail_length (x : List Char) :
    (blankTail x).length = x.length := by
  have hle := (List.rdropWhile_prefix isTrailing x).length_le
  unfold blankTail
  rw [List.length_append, List.length_replicate]
  omega

theorem cutTrailing_append (x y : List Char) :
    cutTrailing x.length (x ++ y) = some (blankTail x ++ y) := by
  induction x using List.reverseRecOn generalizing y with
  | nil => rfl
  | append_singleton x c ih =>
      have hread : (x ++ [c] ++ y)[x.length]? = some c := by
        rw [List.append_assoc]
        exact read_append x y c
      rw [List.length_append, List.length_singleton, cutTrailing]
      simp only [hread, Option.bind_eq_bind, Option.bind_some]
      by_cases hc : isTrailing c = true
      · have hstore : store (x ++ [c] ++ y) x.length NUL =
            some (x ++ NUL :: y) := by
          rw [List.append_assoc]
          exact store_append x y c NUL
        have hle := (List.rdropWhile_prefix isTrailing x).length_le
        have hone : x.length + 1 - (x.rdropWhile isTrailing).length =
            (x.length - (x.rdropWhile isTrailing).length) + 1 := by omega
        rw [if_pos hc, hstore, Option.bind_some, ih]
        unfold blankTail
        rw [List.rdropWhile_concat_pos _ _ _ hc, List.length_append,
          List.length_singleton, hone, List.replicate_succ']
        simp
      · rw [if_neg hc]
        unfold blankTail
        rw [List.rdropWhile_concat_neg _ _ _ hc]
        simp

/-!
# The whole function
-/

theorem shiftLoop_store {lead body : List Char} (hlead : 0 < lead.length)
    (hbody : NUL ∉ body) (left rest : List Char) :
    exists cells,
      shiftLoop lead.length (left ++ (lead ++ (body ++ NUL :: rest))).length
        (left ++ (lead ++ (body ++ NUL :: rest))) (left.length + lead.length) =
          some (cells, left.length + lead.length + body.length) ∧
      store cells (left ++ body).length NUL =
        some ((left ++ body) ++ NUL ::
          (lead ++ (body ++ NUL :: rest)).drop (body.length + 1)) := by
  have hfuel : body.length <
      (left ++ (lead ++ (body ++ NUL :: rest))).length := by
    simp only [List.length_append, List.length_cons]
    omega
  have hgap : 0 < ((lead ++ body).drop body.length).length := by
    rw [List.length_drop, List.length_append]
    omega
  rcases List.exists_cons_of_length_pos hgap with ⟨g, gs, hcells⟩
  refine ⟨_, shiftLoop_append hbody hfuel hlead rfl rfl rest, ?_⟩
  have hkept : (lead ++ (body ++ NUL :: rest)).drop (body.length + 1) =
      gs ++ NUL :: rest := by
    rw [← List.append_assoc, ← List.drop_drop,
      List.drop_append_of_le_length (by simp), hcells]
    rfl
  have hmoved : left ++ (body ++ ((lead ++ body).drop body.length ++
      NUL :: rest)) = (left ++ body) ++ g :: (gs ++ NUL :: rest) := by
    rw [hcells, List.append_assoc]
    rfl
  rw [hkept, hmoved]
  exact store_append (left ++ body) (gs ++ NUL :: rest) g NUL

/-- The string without its blanks, NULs where its trailing blanks were, and behind
its new end the cells as they were. -/
theorem trimAt_eq {s : List Char} (hs : NUL ∉ s) (left rest : List Char) :
    trimAt (left ++ (s ++ NUL :: rest)) left.length =
      some (blankTail (left ++ s.dropWhile isBlank) ++ NUL ::
        (s ++ NUL :: rest).drop ((s.dropWhile isBlank).length + 1)) := by
  have hsplit : s.takeWhile isBlank ++ s.dropWhile isBlank = s :=
    List.takeWhile_append_dropWhile
  have hbody : NUL ∉ s.dropWhile isBlank :=
    fun hin => hs ((List.dropWhile_sublist isBlank).subset hin)
  unfold trimAt
  rw [List.drop_left, skipBlanks_append]
  generalize hlead : s.takeWhile isBlank = lead at hsplit
  generalize hrest : s.dropWhile isBlank = body at hsplit hbody
  rw [← hsplit]
  simp only [Option.bind_eq_bind, Option.bind_some]
  by_cases hstart : 0 < lead.length
  · rcases shiftLoop_store hstart hbody left rest with ⟨cells, hshift, hstore⟩
    have hend : left.length + lead.length + body.length - lead.length =
        (left ++ body).length := by
      rw [List.length_append]
      omega
    rw [if_pos hstart, List.append_assoc lead, hshift]
    simp only [Option.bind_some, hend, hstore]
    exact cutTrailing_append _ _
  · have hnil : lead = [] :=
      List.eq_nil_of_length_eq_zero (Nat.eq_zero_of_not_pos hstart)
    rw [if_neg hstart, hnil, List.nil_append, List.length_nil, Nat.add_zero,
      strlen_drop hbody, Option.bind_some, Nat.sub_zero, ← List.length_append,
      ← List.append_assoc, cutTrailing_append]
    simp

theorem trimAt_zero {s : List Char} (hs : NUL ∉ s) (rest : List Char) :
    trimAt (s ++ NUL :: rest) 0 =
      some (blankTail (s.dropWhile isBlank) ++ NUL ::
        (s ++ NUL :: rest).drop ((s.dropWhile isBlank).length + 1)) :=
  trimAt_eq hs [] rest

/-- What stands there then is the trimmed string. -/
theorem cstr_blankTail {body : List Char} (hbody : NUL ∉ body)
    (rest : List Char) :
    cstr (blankTail body ++ NUL :: rest) = body.rdropWhile isTrailing := by
  have htrim : NUL ∉ body.rdropWhile isTrailing := fun hin =>
    hbody ((List.rdropWhile_prefix isTrailing body).subset hin)
  unfold blankTail
  rw [List.append_assoc]
  cases body.length - (body.rdropWhile isTrailing).length with
  | zero => exact cstr_append_nul htrim rest
  | succ n =>
      rw [List.replicate_succ, List.cons_append]
      exact cstr_append_nul htrim _

end Util
end Breakin
