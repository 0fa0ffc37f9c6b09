import Breakin.Foundation.Accesses
import Breakin.Util.TrimCells

/-!
# The cells that trim touches

`trim` once more, with every cell that it reads or writes.  Its last loop has no
lower bound: a string with nothing but blanks lets it run past its beginning.
-/

namespace Breakin
namespace Util

open Foundation
open Access

/-- `*p` -/
def readCell (buf : List Char) (p : Nat) : Access Int Char :=
  touch p buf[p]?

/-- `*p = c` -/
def writeCell (buf : List Char) (p : Nat) (c : Char) :
    Access Int (List Char) :=
  touch p (store buf p c)

/-- A loop that only moves `p` on: how far it goes. -/
def advanceFrom (goesOn : Char -> Bool) (buf : List Char) :
    Nat -> Nat -> Access Int Nat
  | 0, _ => ⟨none, []⟩
  | fuel + 1, p => do
      let c ← readCell buf p
      if goesOn c then do
        let n ← advanceFrom goesOn buf fuel (p + 1)
        pure (n + 1)
      else pure 0

/-- `while ((*p == ' ') || (*p == '\t')) { start ++; p ++; }` -/
def skipBlanksFrom (buf : List Char) (p : Nat) : Access Int Nat :=
  advanceFrom isBlank buf (buf.length + 1) p

/-- `while (*p) p++;` -/
def strlenFrom (buf : List Char) (p : Nat) : Access Int Nat :=
  advanceFrom (fun c => c != NUL) buf (buf.length + 1) p

/-- `while (*p) { *(p - start) = *p; p++; }`: the buffer and `p` afterwards. -/
def shiftFrom (start : Nat) :
    Nat -> List Char -> Nat -> Access Int (List Char × Nat)
  | 0, _, _ => ⟨none, []⟩
  | fuel + 1, buf, p => do
      let c ← readCell buf p
      if c = NUL then pure (buf, p)
      else do
        let buf' ← writeCell buf (p - start) c
        shiftFrom start fuel buf' (p + 1)

/-- The last loop, from the cell in front of `p`.  The cell in front of the
buffer is read as well, and holds no blank. -/
def cutTrailingFrom : Nat -> List Char -> Access Int (List Char)
  | 0, buf => touch (-1) (some buf)
  | p + 1, buf => do
      let c ← readCell buf p
      if isTrailing c then do
        let buf' ← writeCell buf p NUL
        cutTrailingFrom p buf'
      else pure buf

/-- `trim(buf + string)`: what it returns, and the buffer afterwards. -/
def trimAccess (buf : List Char) (string : Nat) :
    Access Int (Nat × List Char) := do
  let start ← skipBlanksFrom buf string
  let p := string + start
  if 0 < start then do
    let shifted ← shiftFrom start buf.length buf p
    let buf' ← writeCell shifted.1 (shifted.2 - start) NUL
    let buf'' ← cutTrailingFrom (shifted.2 - start) buf'
    pure (string, buf'')
  else do
    let length ← strlenFrom buf p
    let buf'' ← cutTrailingFrom (p + length - start) buf
    pure (string, buf'')

/-!
# The same result

The cells that are touched aside, these are the loops of `trimAt`.
-/

theorem advanceFrom_value {goesOn : Char -> Bool}
    {count : List Char -> Option Nat} (hnil : count [] = none)
    (hcons : forall c rest, count (c :: rest) =
      if goesOn c then (count rest).map (· + 1) else some 0)
    (buf : List Char) {fuel p : Nat} (hfuel : buf.length < fuel + p) :
    (advanceFrom goesOn buf fuel p).value = count (buf.drop p) := by
  induction fuel generalizing p with
  | zero =>
      rw [List.drop_eq_nil_of_le (by omega), hnil]
      rfl
  | succ fuel ih =>
      rw [advanceFrom, bind_value_eq]
      by_cases hp : p < buf.length
      · have hread : (readCell buf p).value = some buf[p] :=
          List.getElem?_eq_getElem hp
        rw [hread, Option.bind_some, List.drop_eq_getElem_cons hp, hcons]
        split
        · rw [bind_value_eq, ih (by omega)]
          cases count (buf.drop (p + 1)) <;> rfl
        · rfl
      · have hread : (readCell buf p).value = none :=
          List.getElem?_eq_none (Nat.le_of_not_lt hp)
        rw [hread, List.drop_eq_nil_of_le (Nat.le_of_not_lt hp), hnil]
        rfl

theorem skipBlanksFrom_value (buf : List Char) (p : Nat) :
    (skipBlanksFrom buf p).value = skipBlanks (buf.drop p) :=
  advanceFrom_value rfl (fun _ _ => rfl) buf (by omega)

theorem strlenFrom_value (buf : List Char) (p : Nat) :
    (strlenFrom buf p).value = strlen NUL (buf.drop p) := by
  refine advanceFrom_value rfl (fun c rest => ?_) buf (by omega)
  by_cases hc : c = NUL
  · rw [strlen, if_pos hc, if_neg (by simp [hc])]
  · rw [strlen, if_neg hc, if_pos (by simp [hc])]

theorem shiftFrom_value (start fuel : Nat) (buf : List Char) (p : Nat) :
    (shiftFrom start fuel buf p).value = shiftLoop start fuel buf p := by
  induction fuel generalizing buf p with
  | zero => rfl
  | succ fuel ih =>
      rw [shiftFrom, shiftLoop, bind_value_eq]
      apply Option.bind_congr
      intro c _
      split
      · rfl
      · rw [bind_value_eq]
        apply Option.bind_congr
        intro buf' _
        exact ih buf' (p + 1)

theorem cutTrailingFrom_value (p : Nat) (buf : List Char) :
    (cutTrailingFrom p buf).value = cutTrailing p buf := by
  induction p generalizing buf with
  | zero => rfl
  | succ p ih =>
      rw [cutTrailingFrom, cutTrailing, bind_value_eq]
      apply Option.bind_congr
      intro c _
      split
      · rw [bind_value_eq]
        apply Option.bind_congr
        intro buf' _
        exact ih buf'
      · rfl

theorem cutTrailingFrom_return (string p : Nat) (buf : List Char) :
    (cutTrailingFrom p buf >>= fun buf' => pure (string, buf')).value =
      (cutTrailing p buf).map fun buf' => (string, buf') := by
  rw [bind_value_eq, cutTrailingFrom_value]
  cases cutTrailing p buf <;> rfl

theorem trimAccess_value (buf : List Char) (string : Nat) :
    (trimAccess buf string).value =
      (trimAt buf string).map fun buf' => (string, buf') := by
  unfold trimAccess trimAt
  rw [bind_value_eq, skipBlanksFrom_value, Option.bind_eq_bind, Option.map_bind]
  apply Option.bind_congr
  intro start _
  rw [Function.comp_apply]
  dsimp only
  split
  · rw [bind_value_eq, shiftFrom_value, Option.bind_eq_bind, Option.map_bind]
    apply Option.bind_congr
    intro shifted _
    rw [bind_value_eq, Function.comp_apply, Option.bind_eq_bind,
      Option.map_bind]
    apply Option.bind_congr
    intro buf' _
    exact cutTrailingFrom_return string (shifted.2 - start) buf'
  · rw [bind_value_eq, strlenFrom_value, Option.map_bind]
    apply Option.bind_congr
    intro length _
    exact cutTrailingFrom_return string (string + start + length - start) buf

/-!
# The cells of each loop
-/

theorem advanceFrom_inside {goesOn : Char -> Bool} {buf : List Char}
    {fuel p n : Nat} (h : (advanceFrom goesOn buf fuel p).value = some n) :
    Inside (fun i => (p : Int) ≤ i ∧ i ≤ p + n)
      (advanceFrom goesOn buf fuel p) := by
  induction fuel generalizing p n with
  | zero => cases h
  | succ fuel ih =>
      rw [advanceFrom] at h ⊢
      rcases bind_value_some.mp h with ⟨c, hread, hnext⟩
      rw [inside_bind hread, readCell, inside_touch]
      refine ⟨⟨Int.le_refl _, by omega⟩, ?_⟩
      by_cases hc : goesOn c = true
      · rw [if_pos hc] at hnext ⊢
        rcases bind_value_some.mp hnext with ⟨m, hm, hn⟩
        have hnm : m + 1 = n := Option.some.inj hn
        rw [inside_bind hm]
        refine ⟨(ih hm).mono fun i hi => ?_, inside_pure _ _⟩
        omega
      · rw [if_neg hc]
        exact inside_pure _ _

theorem shiftFrom_inside {start fuel p q : Nat} {buf buf' : List Char}
    (hstart : start ≤ p)
    (h : (shiftFrom start fuel buf p).value = some (buf', q)) :
    p ≤ q ∧ Inside (fun i => (p : Int) - start ≤ i ∧ i ≤ q)
      (shiftFrom start fuel buf p) := by
  induction fuel generalizing buf p with
  | zero => cases h
  | succ fuel ih =>
      rw [shiftFrom] at h ⊢
      rcases bind_value_some.mp h with ⟨c, hread, hnext⟩
      rw [inside_bind hread, readCell, inside_touch]
      by_cases hc : c = NUL
      · rw [if_pos hc] at hnext ⊢
        have hpq : p = q := congrArg Prod.snd (Option.some.inj hnext)
        refine ⟨Nat.le_of_eq hpq, ?_, inside_pure _ _⟩
        omega
      · rw [if_neg hc] at hnext ⊢
        rcases bind_value_some.mp hnext with ⟨moved, hstore, hrest⟩
        rcases ih (Nat.le_succ_of_le hstart) hrest with ⟨hle, hinside⟩
        rw [inside_bind hstore, writeCell, inside_touch]
        refine ⟨Nat.le_of_succ_le hle, ?_, ?_, hinside.mono fun i hi => ?_⟩
        · omega
        · omega
        · omega

theorem cutTrailingFrom_inside {p j : Nat} {buf : List Char} {c : Char}
    (hj : j < p) (hp : p ≤ buf.length) (hread : buf[j]? = some c)
    (hc : isTrailing c = false) :
    Inside (fun i => (j : Int) ≤ i ∧ i < p) (cutTrailingFrom p buf) := by
  induction p generalizing buf with
  | zero => cases hj
  | succ p ih =>
      have hcell : (readCell buf p).value = some buf[p] :=
        List.getElem?_eq_getElem hp
      rw [cutTrailingFrom, inside_bind hcell, readCell, inside_touch]
      refine ⟨by omega, ?_⟩
      by_cases htrail : isTrailing buf[p] = true
      · -- the cell at `j` is further down, and this turn leaves it as it is
        have hne : j ≠ p := by
          intro heq
          rw [heq, List.getElem?_eq_getElem hp, Option.some.injEq] at hread
          rw [hread, hc] at htrail
          cases htrail
        have hstore : (writeCell buf p NUL).value = some (buf.set p NUL) :=
          store_of_lt hp NUL
        have hkept : (buf.set p NUL)[j]? = some c := by
          rw [List.getElem?_set_ne (Ne.symm hne), hread]
        have hrest := ih (by omega) (by rw [List.length_set]; omega) hkept
        rw [if_pos htrail, inside_bind hstore, writeCell, inside_touch]
        refine ⟨by omega, hrest.mono fun i hi => ?_⟩
        omega
      · rw [if_neg htrail]
        exact inside_pure _ _

theorem cutTrailingFrom_leaves {p j : Nat} {buf : List Char}
    (hj : j ≤ p) (hp : p ≤ buf.length)
    (hall : forall (i : Nat) (c : Char), j ≤ i -> i < p -> buf[i]? = some c ->
      isTrailing c = true) :
    (j : Int) - 1 ∈ (cutTrailingFrom p buf).offsets := by
  induction p generalizing buf with
  | zero =>
      rw [Nat.le_zero.mp hj]
      exact List.mem_singleton.mpr rfl
  | succ p ih =>
      have hcell : (readCell buf p).value = some buf[p] :=
        List.getElem?_eq_getElem hp
      rw [cutTrailingFrom, mem_bind hcell]
      by_cases hhere : j = p + 1
      · left
        rw [hhere]
        exact List.mem_singleton.mpr (by omega)
      · right
        have htrail := hall p buf[p] (by omega) (Nat.lt_succ_self p)
          (List.getElem?_eq_getElem hp)
        have hstore : (writeCell buf p NUL).value = some (buf.set p NUL) :=
          store_of_lt hp NUL
        rw [if_pos htrail, mem_bind hstore]
        right
        apply ih (by omega) (by rw [List.length_set]; omega)
        intro i c hle hlt hread
        rw [List.getElem?_set_ne (by omega)] at hread
        exact hall i c hle (Nat.lt_succ_of_lt hlt) hread

/-!
# A string in a buffer
-/

structure HeldString where
  before : List Char
  text : CString
  after : List Char
  noNul : NUL ∉ text

namespace HeldString

def cells (h : HeldString) : List Char :=
  h.before ++ (h.text ++ NUL :: h.after)

def position (h : HeldString) : Nat :=
  h.before.length

def Own (h : HeldString) (i : Int) : Prop :=
  (h.position : Int) ≤ i ∧ i ≤ h.position + h.text.length

def body (h : HeldString) : List Char :=
  h.text.dropWhile isBlank

theorem body_noNul (h : HeldString) : NUL ∉ h.body := fun hin =>
  h.noNul ((List.dropWhile_sublist isBlank).subset hin)

def lead (h : HeldString) : List Char :=
  h.text.takeWhile isBlank

theorem lead_body (h : HeldString) : h.lead ++ h.body = h.text :=
  List.takeWhile_append_dropWhile

theorem lead_body_length (h : HeldString) :
    h.lead.length + h.body.length = h.text.length := by
  rw [← h.lead_body, List.length_append]

theorem cells_eq (h : HeldString) :
    h.cells = h.before ++ (h.lead ++ (h.body ++ NUL :: h.after)) := by
  rw [cells, ← List.append_assoc h.lead, h.lead_body]

theorem skipBlanks_value (h : HeldString) :
    (skipBlanksFrom h.cells h.position).value = some h.lead.length := by
  rw [skipBlanksFrom_value, cells, position, List.drop_left,
    skipBlanks_append, lead]

theorem skipBlanks_own (h : HeldString) :
    Inside h.Own (skipBlanksFrom h.cells h.position) := by
  have hlength := h.lead_body_length
  refine (advanceFrom_inside h.skipBlanks_value).mono fun i hi => ?_
  rw [Own]
  omega

theorem end_eq (h : HeldString) :
    h.position + h.lead.length + h.body.length - h.lead.length =
      (h.before ++ h.body).length := by
  rw [position, List.length_append]
  omega

theorem shift_value {h : HeldString} (hstart : 0 < h.lead.length) :
    exists moved,
      (shiftFrom h.lead.length h.cells.length h.cells
          (h.position + h.lead.length)).value =
        some (moved, h.position + h.lead.length + h.body.length) ∧
      store moved (h.before ++ h.body).length NUL =
        some ((h.before ++ h.body) ++ NUL ::
          (h.lead ++ (h.body ++ NUL :: h.after)).drop (h.body.length + 1)) := by
  rcases shiftLoop_store hstart h.body_noNul h.before h.after
    with ⟨moved, hshift, hstore⟩
  rw [← h.cells_eq] at hshift
  refine ⟨moved, ?_, hstore⟩
  rw [shiftFrom_value]
  exact hshift

theorem strlen_value {h : HeldString} (hstart : ¬ 0 < h.lead.length) :
    (strlenFrom h.cells (h.position + h.lead.length)).value =
        some h.body.length ∧
      h.cells = (h.before ++ h.body) ++ NUL :: h.after := by
  have hnil : h.lead = [] :=
    List.eq_nil_of_length_eq_zero (Nat.eq_zero_of_not_pos hstart)
  rw [strlenFrom_value, h.cells_eq, hnil, List.nil_append]
  exact ⟨strlen_drop h.body_noNul h.before h.after,
    (List.append_assoc ..).symm⟩

theorem trimAccess_shifted {h : HeldString} (hstart : 0 < h.lead.length) :
    exists rest, forall P : Int -> Prop, (forall i, h.Own i -> P i) ->
      (Inside P (trimAccess h.cells h.position) <->
        Inside P (cutTrailingFrom (h.before ++ h.body).length
          ((h.before ++ h.body) ++ NUL :: rest))) := by
  have hlength := h.lead_body_length
  rcases shift_value hstart with ⟨moved, hvalue, hstore⟩
  have hshiftOwn : Inside h.Own (shiftFrom h.lead.length h.cells.length
      h.cells (h.position + h.lead.length)) := by
    have hshifted := (shiftFrom_inside (Nat.le_add_left ..) hvalue).right
    refine hshifted.mono fun i hi => ?_
    rw [Own]
    omega
  have hnulOwn : h.Own ((h.before ++ h.body).length : Nat) := by
    rw [Own, List.length_append, ← position]
    omega
  exists (h.lead ++ (h.body ++ NUL :: h.after)).drop (h.body.length + 1)
  intro P hown
  rw [trimAccess, inside_bind h.skipBlanks_value]
  dsimp only
  rw [if_pos hstart, inside_bind hvalue]
  dsimp only
  rw [h.end_eq,
    inside_bind (show (writeCell moved _ NUL).value = _ from hstore),
    inside_bind_pure, writeCell, inside_touch,
    and_iff_right (h.skipBlanks_own.mono hown),
    and_iff_right (hshiftOwn.mono hown), and_iff_right (hown _ hnulOwn)]

theorem trimAccess_unshifted {h : HeldString} (hstart : ¬ 0 < h.lead.length) :
    exists rest, forall P : Int -> Prop, (forall i, h.Own i -> P i) ->
      (Inside P (trimAccess h.cells h.position) <->
        Inside P (cutTrailingFrom (h.before ++ h.body).length
          ((h.before ++ h.body) ++ NUL :: rest))) := by
  have hlength := h.lead_body_length
  rcases strlen_value hstart with ⟨hvalue, hwhole⟩
  have hreadOwn : Inside h.Own
      (strlenFrom h.cells (h.position + h.lead.length)) := by
    refine (advanceFrom_inside hvalue).mono fun i hi => ?_
    rw [Own]
    omega
  exists h.after
  intro P hown
  rw [trimAccess, inside_bind h.skipBlanks_value]
  dsimp only
  rw [if_neg hstart, inside_bind hvalue, h.end_eq, inside_bind_pure, ← hwhole,
    and_iff_right (h.skipBlanks_own.mono hown),
    and_iff_right (hreadOwn.mono hown)]

/-- All but the last loop stays in the string, which leaves the last loop with
the text moved down. -/
theorem trimAccess_inside (h : HeldString) :
    exists rest, forall P : Int -> Prop, (forall i, h.Own i -> P i) ->
      (Inside P (trimAccess h.cells h.position) <->
        Inside P (cutTrailingFrom (h.before ++ h.body).length
          ((h.before ++ h.body) ++ NUL :: rest))) := by
  by_cases hstart : 0 < h.lead.length
  · exact trimAccess_shifted hstart
  · exact trimAccess_unshifted hstart

def window (h : HeldString) : List Char :=
  blankTail h.body ++ NUL :: (h.text ++ [NUL]).drop (h.body.length + 1)

/-- `trim` does what it is for: it returns its argument, the string is without its
blanks at both ends, every cell touched is one of the string's own, all others are
as they were, and a second call changes nothing. -/
def TrimsInPlace (h : HeldString) : Prop :=
  exists own : List Char,
    (trimAccess h.cells h.position).value =
        some (h.position, h.before ++ (own ++ h.after)) ∧
      own.length = h.text.length + 1 ∧
      cstr own = trim h.text ∧
      Inside h.Own (trimAccess h.cells h.position) ∧
      (trimAccess (h.before ++ (own ++ h.after)) h.position).value =
        some (h.position, h.before ++ (own ++ h.after))

theorem body_length_le (h : HeldString) : h.body.length ≤ h.text.length :=
  (List.dropWhile_sublist isBlank).length_le

theorem inside_of_mem {h : HeldString} {c : Char} (hin : c ∈ h.text)
    (hc : isTrailing c = false) :
    Inside h.Own (trimAccess h.cells h.position) := by
  rcases h.trimAccess_inside with ⟨rest, hrest⟩
  have hbody : c ∈ h.body := mem_dropWhile_of_not hin (isBlank_of_not_trailing hc)
  rcases List.getElem_of_mem hbody with ⟨k, hk, hat⟩
  have hlength := h.body_length_le
  have hread : ((h.before ++ h.body) ++ NUL :: rest)[h.before.length + k]? =
      some c := by
    rw [List.append_assoc, List.getElem?_append_right (Nat.le_add_right ..),
      Nat.add_sub_cancel_left, List.getElem?_append_left hk,
      List.getElem?_eq_getElem hk, hat]
  have hcut := cutTrailingFrom_inside
    (show h.before.length + k < (h.before ++ h.body).length by
      rw [List.length_append]
      omega)
    (by simp) hread hc
  rw [List.length_append] at hcut
  rw [hrest h.Own fun i hi => hi, List.length_append]
  refine hcut.mono fun i hi => ?_
  rw [Own, position]
  omega

theorem not_inside_of_all {h : HeldString}
    (hall : forall c, c ∈ h.text -> isTrailing c = true) :
    ¬ Inside h.Own (trimAccess h.cells h.position) := by
  rcases h.trimAccess_inside with ⟨rest, hrest⟩
  rw [hrest h.Own fun i hi => hi]
  intro hinside
  have hleaves : (h.before.length : Int) - 1 ∈
      (cutTrailingFrom (h.before ++ h.body).length
        ((h.before ++ h.body) ++ NUL :: rest)).offsets := by
    apply cutTrailingFrom_leaves (by simp) (by simp)
    intro i c hle hlt hread
    rw [List.length_append] at hlt
    rw [List.append_assoc, List.getElem?_append_right hle,
      List.getElem?_append_left (by omega)] at hread
    exact hall c ((List.dropWhile_sublist isBlank).subset
      (List.mem_of_getElem? hread))
  have hown := hinside _ hleaves
  rw [Own, position] at hown
  omega

theorem blankTail_append {c : Char} {x y : List Char} (hin : c ∈ y)
    (hc : isTrailing c = false) : blankTail (x ++ y) = x ++ blankTail y := by
  unfold blankTail
  rw [rdropWhile_append_of_mem x hin hc, List.append_assoc, List.length_append,
    List.length_append, Nat.add_sub_add_left]

theorem blankTail_string (x rest : List Char) :
    exists rest', blankTail x ++ NUL :: rest =
      x.rdropWhile isTrailing ++ NUL :: rest' := by
  unfold blankTail
  rw [List.append_assoc]
  cases x.length - (x.rdropWhile isTrailing).length with
  | zero => exact ⟨rest, rfl⟩
  | succ n =>
      exists List.replicate n NUL ++ NUL :: rest

theorem value_of_stops {h : HeldString}
    (hstops : blankTail (h.before ++ h.body) =
      h.before ++ blankTail h.body) :
    (trimAccess h.cells h.position).value =
      some (h.position, h.before ++ (h.window ++ h.after)) := by
  have hlength := h.body_length_le
  have hwindow : blankTail (h.before ++ h.body) ++ NUL ::
      (h.text ++ NUL :: h.after).drop (h.body.length + 1) =
        h.before ++ (h.window ++ h.after) := by
    have hcells : h.text ++ NUL :: h.after = (h.text ++ [NUL]) ++ h.after := by
      simp
    rw [hstops, hcells, List.drop_append_of_le_length (by simpa using hlength),
      window]
    simp
  rw [trimAccess_value, cells, position, trimAt_eq h.noNul]
  exact congrArg (fun buf => some (h.before.length, buf)) hwindow

theorem window_value {h : HeldString} {c : Char} (hin : c ∈ h.text)
    (hc : isTrailing c = false) :
    (trimAccess h.cells h.position).value =
      some (h.position, h.before ++ (h.window ++ h.after)) := by
  have hbody : c ∈ h.body := mem_dropWhile_of_not hin (isBlank_of_not_trailing hc)
  exact value_of_stops (blankTail_append hbody hc)

theorem window_length (h : HeldString) :
    h.window.length = h.text.length + 1 := by
  have hlength := h.body_length_le
  rw [window, List.length_append, List.length_cons, List.length_drop,
    blankTail_length, List.length_append, List.length_singleton]
  omega

theorem window_last (h : HeldString) : exists s, h.window = s ++ [NUL] := by
  have hlength := h.body_length_le
  by_cases hsame : h.body.length = h.text.length
  · exists blankTail h.body
    rw [window, hsame, List.drop_eq_nil_of_le (by simp)]
  · exists blankTail h.body ++ NUL :: h.text.drop (h.body.length + 1)
    rw [window, List.drop_append_of_le_length (by omega), List.append_assoc]
    rfl

theorem window_string (h : HeldString) : cstr h.window = trim h.text :=
  cstr_blankTail h.body_noNul _

theorem trimAccess_trimmed {c : Char} {s : CString} (hs : NUL ∉ s)
    (hin : c ∈ trim s) (hc : isTrailing c = false) (before after : List Char) :
    (trimAccess (before ++ (trim s ++ NUL :: after)) before.length).value =
      some (before.length, before ++ (trim s ++ NUL :: after)) := by
  have htrim : NUL ∉ trim s := fun h => hs ((trim_isInfix s).subset h)
  have hkept : (trim s).rdropWhile isTrailing = trim s :=
    List.rdropWhile_idempotent isTrailing _
  have hblank : blankTail (before ++ trim s) = before ++ trim s := by
    rw [blankTail_append hin hc, blankTail, hkept, Nat.sub_self]
    simp
  have hrest : (trim s ++ NUL :: after).drop ((trim s).length + 1) = after := by
    rw [← List.drop_drop, List.drop_left]
    rfl
  rw [trimAccess_value, trimAt_eq htrim, trim_dropWhile, hblank, hrest,
    Option.map_some, List.append_assoc]

theorem trimsInPlace_of_mem {h : HeldString} {c : Char} (hin : c ∈ h.text)
    (hc : isTrailing c = false) : h.TrimsInPlace := by
  refine ⟨h.window, window_value hin hc, h.window_length, h.window_string,
    inside_of_mem hin hc, ?_⟩
  rcases blankTail_string h.body
    ((h.text ++ [NUL]).drop (h.body.length + 1)) with ⟨rest, hrest⟩
  have hwindow : h.window = trim h.text ++ NUL :: rest := hrest
  rw [hwindow, List.append_assoc, List.cons_append]
  exact trimAccess_trimmed h.noNul (mem_trim hin hc) hc h.before
    (rest ++ h.after)

/-- `trim` does what it is for exactly when its string holds more than blanks and
line ends. -/
theorem trimsInPlace_iff (h : HeldString) :
    h.TrimsInPlace <-> exists c, c ∈ h.text ∧ isTrailing c = false := by
  constructor
  · rintro ⟨own, _, _, _, hinside, _⟩
    by_contra hnone
    apply not_inside_of_all _ hinside
    intro c hin
    by_contra hc
    exact hnone ⟨c, hin, Bool.eq_false_iff.mpr hc⟩
  · rintro ⟨c, hin, hc⟩
    exact trimsInPlace_of_mem hin hc

def blankLine : HeldString where
  before := "a ".toList
  text := "\n".toList
  after := []
  noNul := by decide

theorem blankLine_not_inPlace : ¬ blankLine.TrimsInPlace := by
  rintro ⟨own, _, _, _, hinside, _⟩
  apply not_inside_of_all _ hinside
  intro c hc
  have hend : c ∈ ['\n'] := hc
  rw [List.mem_singleton.mp hend]
  rfl

end HeldString
end Util
end Breakin
