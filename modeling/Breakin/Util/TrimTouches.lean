import Breakin.Util.TrimAccess

/-!
# What trim reads and what it writes

The loops of `trim` with reads and writes apart.  Where the cell in front of the
string holds no blank, the last loop reads that cell and stops: it writes to the
string's own cells only.
-/

namespace Breakin
namespace Util

open Foundation
open Access

inductive Touch where
  | read (i : Int)
  | write (i : Int)
deriving DecidableEq

def Touch.cell : Touch -> Int
  | .read i => i
  | .write i => i

def Touch.WritesFrom (lo : Int) : Touch -> Prop
  | .read _ => True
  | .write i => lo ≤ i

def readTouch (buf : List Char) (p : Nat) : Access Touch Char :=
  touch (.read p) buf[p]?

def writeTouch (buf : List Char) (p : Nat) (c : Char) :
    Access Touch (List Char) :=
  touch (.write p) (store buf p c)

def advanceTouches (goesOn : Char -> Bool) (buf : List Char) :
    Nat -> Nat -> Access Touch Nat
  | 0, _ => ⟨none, []⟩
  | fuel + 1, p => do
      let c ← readTouch buf p
      if goesOn c then do
        let n ← advanceTouches goesOn buf fuel (p + 1)
        pure (n + 1)
      else pure 0

def skipTouches (buf : List Char) (p : Nat) : Access Touch Nat :=
  advanceTouches isBlank buf (buf.length + 1) p

def strlenTouches (buf : List Char) (p : Nat) : Access Touch Nat :=
  advanceTouches (fun c => c != NUL) buf (buf.length + 1) p

def shiftTouches (start : Nat) :
    Nat -> List Char -> Nat -> Access Touch (List Char × Nat)
  | 0, _, _ => ⟨none, []⟩
  | fuel + 1, buf, p => do
      let c ← readTouch buf p
      if c = NUL then pure (buf, p)
      else do
        let buf' ← writeTouch buf (p - start) c
        shiftTouches start fuel buf' (p + 1)

def cutTouches : Nat -> List Char -> Access Touch (List Char)
  | 0, buf => touch (.read (-1)) (some buf)
  | p + 1, buf => do
      let c ← readTouch buf p
      if isTrailing c then do
        let buf' ← writeTouch buf p NUL
        cutTouches p buf'
      else pure buf

def trimTouches (buf : List Char) (string : Nat) :
    Access Touch (Nat × List Char) := do
  let start ← skipTouches buf string
  let p := string + start
  if 0 < start then do
    let shifted ← shiftTouches start buf.length buf p
    let buf' ← writeTouch shifted.1 (shifted.2 - start) NUL
    let buf'' ← cutTouches (shifted.2 - start) buf'
    pure (string, buf'')
  else do
    let length ← strlenTouches buf p
    let buf'' ← cutTouches (p + length - start) buf
    pure (string, buf'')

/-!
# The same accesses

The kinds of access aside, these are the loops of `trimAccess`.
-/

theorem readTouch_cell (buf : List Char) (p : Nat) :
    (readTouch buf p).rename Touch.cell = readCell buf p := rfl

theorem writeTouch_cell (buf : List Char) (p : Nat) (c : Char) :
    (writeTouch buf p c).rename Touch.cell = writeCell buf p c := rfl

theorem advanceTouches_cell (goesOn : Char -> Bool) (buf : List Char)
    (fuel p : Nat) :
    (advanceTouches goesOn buf fuel p).rename Touch.cell =
      advanceFrom goesOn buf fuel p := by
  induction fuel generalizing p with
  | zero => rfl
  | succ fuel ih =>
      rw [advanceTouches, advanceFrom, rename_bind, readTouch_cell]
      congr 1
      funext c
      split
      · rw [rename_bind, ih]
        rfl
      · rfl

theorem shiftTouches_cell (start fuel : Nat) (buf : List Char) (p : Nat) :
    (shiftTouches start fuel buf p).rename Touch.cell =
      shiftFrom start fuel buf p := by
  induction fuel generalizing buf p with
  | zero => rfl
  | succ fuel ih =>
      rw [shiftTouches, shiftFrom, rename_bind, readTouch_cell]
      congr 1
      funext c
      split
      · rfl
      · rw [rename_bind, writeTouch_cell]
        congr 1
        funext buf'
        exact ih buf' (p + 1)

theorem cutTouches_cell (p : Nat) (buf : List Char) :
    (cutTouches p buf).rename Touch.cell = cutTrailingFrom p buf := by
  induction p generalizing buf with
  | zero => rfl
  | succ p ih =>
      rw [cutTouches, cutTrailingFrom, rename_bind, readTouch_cell]
      congr 1
      funext c
      split
      · rw [rename_bind, writeTouch_cell]
        congr 1
        funext buf'
        exact ih buf'
      · rfl

theorem trimTouches_cell (buf : List Char) (string : Nat) :
    (trimTouches buf string).rename Touch.cell = trimAccess buf string := by
  rw [trimTouches, trimAccess, rename_bind, skipTouches, advanceTouches_cell,
    skipBlanksFrom]
  congr 1
  funext start
  dsimp only
  split
  · rw [rename_bind, shiftTouches_cell]
    congr 1
    funext shifted
    rw [rename_bind, writeTouch_cell]
    congr 1
    funext buf'
    rw [rename_bind, cutTouches_cell]
    rfl
  · rw [rename_bind, strlenTouches, advanceTouches_cell, strlenFrom]
    congr 1
    funext length
    rw [rename_bind, cutTouches_cell]
    rfl

/-!
# Where the loops write
-/

section Writes

variable {lo : Int}

theorem advanceTouches_writes {goesOn : Char -> Bool} {buf : List Char}
    {fuel p n : Nat} (h : (advanceFrom goesOn buf fuel p).value = some n) :
    Inside (Touch.WritesFrom lo) (advanceTouches goesOn buf fuel p) := by
  induction fuel generalizing p n with
  | zero => cases h
  | succ fuel ih =>
      rw [advanceFrom] at h
      rcases bind_value_some.mp h with ⟨c, hread, hnext⟩
      have hread' : (readTouch buf p).value = some c := hread
      rw [advanceTouches, inside_bind hread', readTouch, inside_touch]
      refine ⟨trivial, ?_⟩
      by_cases hc : goesOn c = true
      · rw [if_pos hc] at hnext ⊢
        rcases bind_value_some.mp hnext with ⟨m, hm, _⟩
        rw [inside_bind_pure]
        exact ih hm
      · rw [if_neg hc]
        exact inside_pure _ _

theorem shiftTouches_writes {start fuel p : Nat} {buf : List Char}
    {result : List Char × Nat} (hlo : lo + start ≤ p)
    (h : (shiftFrom start fuel buf p).value = some result) :
    Inside (Touch.WritesFrom lo) (shiftTouches start fuel buf p) := by
  induction fuel generalizing buf p with
  | zero => cases h
  | succ fuel ih =>
      rw [shiftFrom] at h
      rcases bind_value_some.mp h with ⟨c, hread, hnext⟩
      have hread' : (readTouch buf p).value = some c := hread
      rw [shiftTouches, inside_bind hread', readTouch, inside_touch]
      refine ⟨trivial, ?_⟩
      by_cases hc : c = NUL
      · rw [if_pos hc]
        exact inside_pure _ _
      · rw [if_neg hc] at hnext ⊢
        rcases bind_value_some.mp hnext with ⟨moved, hstore, hrest⟩
        have hstore' : (writeTouch buf (p - start) c).value = some moved := hstore
        rw [inside_bind hstore', writeTouch, inside_touch]
        have hhere : lo ≤ ((p - start : Nat) : Int) := by omega
        exact ⟨hhere, ih (by omega) hrest⟩

theorem cutTouches_writes {p j : Nat} {buf : List Char} {c : Char}
    (hj : j < p) (hp : p ≤ buf.length) (hread : buf[j]? = some c)
    (hc : isTrailing c = false) :
    Inside (Touch.WritesFrom (j + 1)) (cutTouches p buf) := by
  induction p generalizing buf with
  | zero => cases hj
  | succ p ih =>
      have hcell : (readTouch buf p).value = some buf[p] :=
        List.getElem?_eq_getElem hp
      rw [cutTouches, inside_bind hcell, readTouch, inside_touch]
      refine ⟨trivial, ?_⟩
      by_cases htrail : isTrailing buf[p] = true
      · -- the cell at `j` is further down, as in `cutTrailingFrom_inside`
        have hne : j ≠ p := by
          intro heq
          rw [heq, List.getElem?_eq_getElem hp, Option.some.injEq] at hread
          rw [hread, hc] at htrail
          cases htrail
        have hstore : (writeTouch buf p NUL).value = some (buf.set p NUL) :=
          store_of_lt hp NUL
        have hkept : (buf.set p NUL)[j]? = some c := by
          rw [List.getElem?_set_ne (Ne.symm hne), hread]
        have hhere : (j : Int) + 1 ≤ (p : Nat) := by omega
        rw [if_pos htrail, inside_bind hstore, writeTouch, inside_touch]
        exact ⟨hhere, ih (by omega) (by rw [List.length_set]; omega) hkept⟩
      · rw [if_neg htrail]
        exact inside_pure _ _

end Writes

/-!
# A string behind a cell that is not blank
-/

theorem rdropWhile_append_of_last {p : Char -> Bool} {c : Char}
    (hc : p c = false) (x y : List Char) :
    (x ++ [c] ++ y).rdropWhile p = x ++ [c] ++ y.rdropWhile p := by
  have hnot : ¬ p c = true := Bool.not_eq_true _ ▸ hc
  induction y using List.reverseRecOn with
  | nil =>
      rw [List.append_nil, List.rdropWhile_nil, List.append_nil]
      exact List.rdropWhile_concat_neg _ _ _ hnot
  | append_singleton y d ih =>
      rw [← List.append_assoc]
      by_cases hd : p d = true
      · rw [List.rdropWhile_concat_pos _ _ _ hd,
          List.rdropWhile_concat_pos _ _ _ hd, ih]
      · rw [List.rdropWhile_concat_neg _ _ _ hd,
          List.rdropWhile_concat_neg _ _ _ hd, List.append_assoc (x ++ [c])]

theorem blankTail_append_of_last {c : Char} (hc : isTrailing c = false)
    (x y : List Char) :
    blankTail (x ++ [c] ++ y) = x ++ [c] ++ blankTail y := by
  have hsize : (x ++ [c] ++ y).length -
      (x ++ [c] ++ y.rdropWhile isTrailing).length =
        y.length - (y.rdropWhile isTrailing).length := by
    simp only [List.length_append]
    omega
  unfold blankTail
  rw [rdropWhile_append_of_last hc, hsize, List.append_assoc (x ++ [c])]

/-- The cell in front of the string stops the last loop. -/
structure GuardedString extends HeldString where
  guarded : exists x c, before = x ++ [c] ∧ isTrailing c = false

namespace GuardedString

variable {g : GuardedString}

theorem guard_read (g : GuardedString) (rest : List Char) :
    exists j c, j + 1 = g.before.length ∧ j < (g.before ++ g.body).length ∧
      ((g.before ++ g.body) ++ NUL :: rest)[j]? = some c ∧
        isTrailing c = false := by
  rcases g.guarded with ⟨x, c, hbefore, hc⟩
  refine ⟨x.length, c, ?_, ?_, ?_, hc⟩
  · rw [hbefore, List.length_append]
    rfl
  · simp [hbefore]
  · rw [hbefore, List.append_assoc, List.append_assoc]
    exact read_append x (g.body ++ NUL :: rest) c

theorem touched (g : GuardedString) :
    Inside (fun i => g.Own i ∨ i = g.position - 1)
      (trimAccess g.cells g.position) := by
  rcases g.trimAccess_inside with ⟨rest, hrest⟩
  rcases g.guard_read rest with ⟨j, c, hj, hlt, hread, hc⟩
  have hlength := g.body_length_le
  rw [hrest _ fun i hi => Or.inl hi]
  refine (cutTrailingFrom_inside hlt (by simp) hread hc).mono fun i hi => ?_
  rw [List.length_append] at hi
  rw [HeldString.Own, HeldString.position]
  omega

theorem cutTouches_own (g : GuardedString) (rest : List Char) :
    Inside (Touch.WritesFrom g.position)
      (cutTouches (g.before ++ g.body).length
        ((g.before ++ g.body) ++ NUL :: rest)) := by
  rcases g.guard_read rest with ⟨j, c, hj, hlt, hread, hc⟩
  have hguard : (g.position : Int) = j + 1 := by
    rw [HeldString.position]
    omega
  rw [hguard]
  exact cutTouches_writes hlt (by simp) hread hc

theorem skipTouches_value (g : GuardedString) :
    (skipTouches g.cells g.position).value = some g.lead.length := by
  rw [← g.skipBlanks_value, skipBlanksFrom, ← advanceTouches_cell]
  rfl

theorem writes_shifted (hstart : 0 < g.lead.length) :
    Inside (Touch.WritesFrom g.position)
      (trimTouches g.cells g.position) := by
  rcases HeldString.shift_value hstart with ⟨moved, hvalue, hstore⟩
  have hshift : (shiftTouches g.lead.length g.cells.length g.cells
      (g.position + g.lead.length)).value = some
        (moved, g.position + g.lead.length + g.body.length) := by
    rw [← hvalue, ← shiftTouches_cell]
    rfl
  have hwrite : (writeTouch moved (g.before ++ g.body).length NUL).value =
      _ := hstore
  have hend : (g.position : Int) ≤ (g.before ++ g.body).length := by
    rw [HeldString.position, List.length_append]
    omega
  rw [trimTouches, inside_bind g.skipTouches_value]
  refine ⟨advanceTouches_writes g.skipBlanks_value, ?_⟩
  dsimp only
  rw [if_pos hstart, inside_bind hshift]
  refine ⟨shiftTouches_writes (by omega) hvalue, ?_⟩
  dsimp only
  rw [g.end_eq, inside_bind hwrite, inside_bind_pure, writeTouch, inside_touch]
  exact ⟨hend, g.cutTouches_own _⟩

theorem writes_unshifted (hstart : ¬ 0 < g.lead.length) :
    Inside (Touch.WritesFrom g.position)
      (trimTouches g.cells g.position) := by
  rcases HeldString.strlen_value hstart with ⟨hvalue, hwhole⟩
  have hlength : (strlenTouches g.cells (g.position + g.lead.length)).value =
      some g.body.length := by
    rw [← hvalue, strlenFrom, ← advanceTouches_cell]
    rfl
  rw [trimTouches, inside_bind g.skipTouches_value]
  refine ⟨advanceTouches_writes g.skipBlanks_value, ?_⟩
  dsimp only
  rw [if_neg hstart, inside_bind hlength, g.end_eq, inside_bind_pure]
  refine ⟨advanceTouches_writes hvalue, ?_⟩
  rw [hwhole]
  exact g.cutTouches_own g.after

theorem writes (g : GuardedString) :
    Inside (Touch.WritesFrom g.position)
      (trimTouches g.cells g.position) := by
  by_cases hstart : 0 < g.lead.length
  · exact writes_shifted hstart
  · exact writes_unshifted hstart

theorem touch_own_or_before {t : Touch}
    (h : t ∈ (trimTouches g.cells g.position).offsets) :
    g.Own t.cell ∨ t.cell = g.position - 1 := by
  have hinside := g.touched
  rw [← trimTouches_cell, inside_rename] at hinside
  exact hinside t h

/-- Every write goes to the string's own cells. -/
theorem write_own {i : Int}
    (h : Touch.write i ∈ (trimTouches g.cells g.position).offsets) :
    g.Own i := by
  have hlow : (g.position : Int) ≤ i := g.writes _ h
  rcases touch_own_or_before h with hown | hbefore
  · exact hown
  · have hcell : i = g.position - 1 := hbefore
    omega

/-- The cell in front is read when the string has blanks and line ends only. -/
theorem reads_before
    (hall : forall c, c ∈ g.text -> isTrailing c = true) :
    Touch.read (g.position - 1) ∈
      (trimTouches g.cells g.position).offsets := by
  have hleaves := HeldString.not_inside_of_all hall
  rw [← trimTouches_cell, inside_rename] at hleaves
  simp only [Inside, not_forall] at hleaves
  rcases hleaves with ⟨t, ht, hout⟩
  have hbefore := (touch_own_or_before ht).resolve_left hout
  cases t with
  | read i =>
      have hcell : i = g.position - 1 := hbefore
      rw [← hcell]
      exact ht
  | write i => exact absurd (write_own ht) hout

theorem value_eq (g : GuardedString) :
    (trimTouches g.cells g.position).value =
      some (g.position, g.before ++ (g.window ++ g.after)) := by
  rcases g.guarded with ⟨x, c, hbefore, hc⟩
  have hstops : blankTail (g.before ++ g.body) =
      g.before ++ blankTail g.body := by
    rw [hbefore, blankTail_append_of_last hc]
  rw [← HeldString.value_of_stops hstops, ← trimTouches_cell]
  rfl

end GuardedString

/-- A line end behind a NUL is written over, and the NUL is read. -/
example : (trimTouches ['a', NUL, '\n', NUL] 2).offsets =
    [.read 2, .read 2, .read 3, .read 2, .write 2, .read 1] := by decide

end Util
end Breakin
