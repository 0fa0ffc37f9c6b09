import Breakin.Foundation.Accesses
import Breakin.Foundation.Buffer
import Breakin.Foundation.Printf

/-!
# Sensor cells

`draw_stat_window` formats each sensor that it shows into two local arrays, a
label for the name and a string for the cell.  Temperatures and fans have a copy
of the code each, with other sizes.
-/

namespace Breakin
namespace Screen

open Foundation
open Access

structure SensorName where
  text : CString
  short : text.length ≤ 15
  noNul : NUL ∉ text

structure TempReading where
  name : SensorName
  value : Double

structure FanReading where
  name : SensorName
  value : Int32

/-- `value > 0`, which is false for a NaN. -/
def isPositive : Double -> Bool
  | .finite negative significand _ => !negative && significand != 0
  | .infinite negative => !negative
  | .nan _ => false

def TempReading.shown (t : TempReading) : Bool :=
  isPositive t.value

def FanReading.shown (f : FanReading) : Bool :=
  decide (0 ≤ f.value)

def TempReading.valueText (t : TempReading) : CString :=
  ": ".toList ++ printFixed 1 t.value ++ "C".toList

def FanReading.valueText (f : FanReading) : CString :=
  ": ".toList ++ printInt f.value.toInt ++ " RPM".toList

/-- The numbers in which the two copies differ: the size of `label`, and the
length from which on a name is cut to that length. -/
structure CellLayout where
  labelSize : Nat
  limit : Nat
  cut : limit ≤ labelSize

def tempLayout : CellLayout where
  labelSize := 15
  limit := 14
  cut := by decide

def fanLayout : CellLayout where
  labelSize := 10
  limit := 10
  cut := by decide

def STRING_SIZE : Nat := 22

inductive LocalCell where
  | label (i : Nat)
  | string (i : Nat)
deriving DecidableEq

/-- `place[i] = c` -/
def writeAt (place : Nat -> LocalCell) (cells : List Char) (i : Nat)
    (c : Char) : Access LocalCell (List Char) :=
  touch (place i) (store cells i c)

def writeFrom (place : Nat -> LocalCell) :
    List Char -> List Char -> Nat -> Access LocalCell (List Char)
  | [], cells, _ => pure cells
  | c :: rest, cells, i => do
      let cells' ← writeAt place cells i c
      writeFrom place rest cells' (i + 1)

/-- A name that is too long is cut by a loop, and others are copied by `sprintf`. -/
def formatLabel (l : CellLayout) (name : CString) (label : List Char) :
    Access LocalCell (List Char) :=
  if l.limit < name.length then
    writeFrom .label (name.take l.limit) label 0
  else
    writeFrom .label (name ++ [NUL]) label 0

/-- `snprintf(string, sizeof(string), ...)`, which reads behind a label that is
not terminated. -/
def formatString (label : List Char) (valueText : CString)
    (string : List Char) : Access LocalCell (List Char) :=
  if NUL ∈ label then
    writeFrom .string
      (snprintf STRING_SIZE (cstr label ++ valueText) ++ [NUL]) string 0
  else ⟨none, []⟩

/-- `for (j = strlen(string); j < 22; j ++) string[j] = ' ';` -/
def padString (string : List Char) : Access LocalCell (List Char) :=
  if NUL ∈ string then
    let j := (cstr string).length
    writeFrom .string (List.replicate (22 - j) ' ') string j
  else ⟨none, []⟩

def formatPadded (l : CellLayout) (name valueText : CString)
    (label string : List Char) : Access LocalCell (List Char) := do
  let label' ← formatLabel l name label
  let string' ← formatString label' valueText string
  padString string'

/-- The cell, with `string[22] = '\0'` at last. -/
def formatCell (l : CellLayout) (name valueText : CString)
    (label string : List Char) : Access LocalCell (List Char) := do
  let padded ← formatPadded l name valueText label string
  writeAt .string padded 22 NUL

/-!
# What a cell is to be
-/

/-- The arrays before a cell is formatted; they hold whatever was there. -/
structure CellLocals (l : CellLayout) where
  label : List Char
  string : List Char
  labelSize : label.length = l.labelSize
  stringSize : string.length = STRING_SIZE

def Within (l : CellLayout) : LocalCell -> Prop
  | .label i => i < l.labelSize
  | .string i => i < STRING_SIZE

/-- The name, cut, and the value, with blanks up to the size of `string`. -/
def cellText (l : CellLayout) (name valueText : CString) : CString :=
  List.rightpad STRING_SIZE ' '
    (snprintf STRING_SIZE (name.take l.limit ++ valueText))

structure CellBuilt (l : CellLayout) (name : SensorName)
    (valueText : CString) : Prop where
  within : forall m : CellLocals l,
    Inside (Within l) (formatCell l name.text valueText m.label m.string)
  terminated : forall m : CellLocals l, exists label,
    (formatLabel l name.text m.label).value = some label ∧ NUL ∈ label
  printed : forall m : CellLocals l, exists cells,
    (formatCell l name.text valueText m.label m.string).value = some cells ∧
      cstr cells = cellText l name.text valueText

def CellsBuilt (temps : List TempReading) (fans : List FanReading) : Prop :=
  (forall t, t ∈ temps -> t.shown = true ->
      CellBuilt tempLayout t.name t.valueText) ∧
    forall f, f ∈ fans -> f.shown = true ->
      CellBuilt fanLayout f.name f.valueText

/-!
# Writing characters in turn
-/

theorem writeFrom_value {place : Nat -> LocalCell}
    {text left old right : List Char} (h : old.length = text.length) :
    (writeFrom place text (left ++ (old ++ right)) left.length).value =
      some (left ++ (text ++ right)) := by
  induction text generalizing left old with
  | nil =>
      rw [List.length_eq_zero_iff.mp h]
      rfl
  | cons c rest ih =>
      cases old with
      | nil => cases h
      | cons o old =>
          have hwrite : (writeAt place (left ++ (o :: old ++ right))
              left.length c).value = some (left ++ (c :: old ++ right)) :=
            store_append left (old ++ right) o c
          have hnext := @ih (left ++ [c]) old (Nat.succ.inj h)
          rw [List.length_append, List.append_assoc, List.append_assoc] at hnext
          rw [writeFrom, bind_value hwrite]
          exact hnext

theorem writeFrom_front (place : Nat -> LocalCell) {text cells : List Char}
    (h : text.length ≤ cells.length) :
    (writeFrom place text cells 0).value =
      some (text ++ cells.drop text.length) := by
  have hvalue := @writeFrom_value place text [] _ (cells.drop text.length)
    (List.length_take_of_le h)
  rw [List.nil_append, List.take_append_drop] at hvalue
  exact hvalue

theorem writeFrom_fits {place : Nat -> LocalCell}
    {text cells cells' : List Char} {i : Nat} (hi : i ≤ cells.length)
    (h : (writeFrom place text cells i).value = some cells') :
    i + text.length ≤ cells.length := by
  by_contra hroom
  induction text generalizing cells i with
  | nil => exact hroom hi
  | cons c rest ih =>
      rw [List.length_cons] at hroom
      rcases bind_value_some.mp h with ⟨next, hwrite, hrest⟩
      simp only [writeAt, touch_value, store] at hwrite
      split at hwrite
      · rename_i hlt
        cases hwrite
        apply ih _ hrest
        · rw [List.length_set]
          omega
        · rw [List.length_set]
          exact hlt
      · cases hwrite

theorem writeFrom_inside {place : Nat -> LocalCell} {text cells : List Char}
    {i : Nat} {P : LocalCell -> Prop} (h : i + text.length ≤ cells.length)
    (hP : forall j, j < cells.length -> P (place j)) :
    Inside P (writeFrom place text cells i) := by
  induction text generalizing cells i with
  | nil => exact inside_pure P cells
  | cons c rest ih =>
      rw [List.length_cons] at h
      have hwrite : (writeAt place cells i c).value = some (cells.set i c) :=
        store_of_lt (by omega) c
      rw [writeFrom, inside_bind hwrite, writeAt, inside_touch]
      constructor
      · exact hP i (by omega)
      · apply ih
        · rw [List.length_set]
          omega
        · intro j hj
          rw [List.length_set] at hj
          exact hP j hj

theorem writeFrom_leaves {place : Nat -> LocalCell} {text cells : List Char}
    {i : Nat} (hi : i ≤ cells.length)
    (h : cells.length < i + text.length) :
    place cells.length ∈ (writeFrom place text cells i).offsets := by
  induction text generalizing cells i with
  | nil =>
      rw [List.length_nil] at h
      omega
  | cons c rest ih =>
      rw [List.length_cons] at h
      rw [writeFrom]
      rcases Nat.lt_or_eq_of_le hi with hlt | heq
      · have hwrite : (writeAt place cells i c).value = some (cells.set i c) :=
          store_of_lt hlt c
        have hlength : (cells.set i c).length = cells.length := List.length_set
        rw [mem_bind hwrite, ← hlength]
        right
        exact ih (by omega) (by omega)
      · apply mem_bind_left
        rw [heq]
        exact List.mem_singleton.mpr rfl

/-!
# The label
-/

variable {l : CellLayout}

theorem formatLabel_short {name : CString} {label : List Char}
    (hfits : name.length ≤ l.limit) (hroom : name.length < label.length) :
    (formatLabel l name label).value =
      some (name ++ NUL :: label.drop (name.length + 1)) := by
  have hlength : (name ++ [NUL]).length = name.length + 1 := by simp
  unfold formatLabel
  rw [if_neg (Nat.not_lt.mpr hfits), writeFrom_front .label (by omega),
    hlength, List.append_assoc]
  rfl

theorem formatLabel_long {name : CString} {label : List Char}
    (hlong : l.limit < name.length) (hroom : l.limit ≤ label.length) :
    (formatLabel l name label).value =
      some (name.take l.limit ++ label.drop l.limit) := by
  have hlength : (name.take l.limit).length = l.limit :=
    List.length_take_of_le hlong.le
  unfold formatLabel
  rw [if_pos hlong, writeFrom_front .label (by omega), hlength]

/-- All is written inside the label unless the name and its NUL are one too many. -/
theorem formatLabel_inside_iff (name : CString) (m : CellLocals l) :
    Inside (Within l) (formatLabel l name m.label) <->
      l.limit < name.length ∨ name.length < l.labelSize := by
  have hsize := m.labelSize
  have hcut := l.cut
  have hlabel : forall j, j < m.label.length -> Within l (.label j) := by
    intro j hj
    rw [hsize] at hj
    exact hj
  have hlength : (name ++ [NUL]).length = name.length + 1 := by simp
  unfold formatLabel
  by_cases hlong : l.limit < name.length
  · rw [if_pos hlong]
    refine iff_of_true (writeFrom_inside ?_ hlabel) (Or.inl hlong)
    rw [List.length_take_of_le hlong.le]
    omega
  · rw [if_neg hlong, or_iff_right hlong]
    constructor
    · intro hinside
      by_contra hroom
      have hout : Within l (.label m.label.length) :=
        hinside _ (writeFrom_leaves (Nat.zero_le _) (by omega))
      rw [hsize] at hout
      exact Nat.lt_irrefl _ hout
    · intro hroom
      exact writeFrom_inside (by omega) hlabel

def fullLocals (l : CellLayout) : CellLocals l where
  label := List.replicate l.labelSize ' '
  string := List.replicate STRING_SIZE ' '
  labelSize := List.length_replicate
  stringSize := List.length_replicate

/-- The label is terminated, whatever it holds before, exactly when the name is
copied and fits. -/
theorem formatLabel_terminated_iff {name : CString} (hname : NUL ∉ name) :
    (forall m : CellLocals l, exists label,
        (formatLabel l name m.label).value = some label ∧ NUL ∈ label) <->
      name.length ≤ l.limit ∧ name.length < l.labelSize := by
  constructor
  · intro h
    rcases h (fullLocals l) with ⟨label, hlabel, hin⟩
    have hsize := (fullLocals l).labelSize
    have hcut := l.cut
    by_cases hlong : l.limit < name.length
    · rw [formatLabel_long hlong (by omega), Option.some.injEq] at hlabel
      rw [← hlabel] at hin
      rcases List.mem_append.mp hin with hfront | hrest
      · exact absurd (List.mem_of_mem_take hfront) hname
      · have hblank := List.eq_of_mem_replicate (List.mem_of_mem_drop hrest)
        exact absurd hblank (by decide)
    · rw [formatLabel, if_neg hlong] at hlabel
      have hfits := writeFrom_fits (Nat.zero_le _) hlabel
      rw [List.length_append, List.length_singleton, hsize] at hfits
      omega
  · rintro ⟨hfits, hroom⟩ m
    have hsize := m.labelSize
    exact ⟨_, formatLabel_short hfits (by omega), by simp⟩

/-!
# The cell
-/

theorem numberChar_ne_nul {c : Char} (h : NumberChar c) : c ≠ NUL :=
  h.ne (by unfold NumberChar; decide)

theorem TempReading.valueText_noNul (t : TempReading) :
    NUL ∉ t.valueText := by
  intro hin
  rcases List.mem_append.mp hin with hfront | hunit
  · rcases List.mem_append.mp hfront with hcolon | hnumber
    · exact absurd hcolon (by decide)
    · exact numberChar_ne_nul (printFixed_numberChar hnumber) rfl
  · exact absurd hunit (by decide)

theorem FanReading.valueText_noNul (f : FanReading) :
    NUL ∉ f.valueText := by
  intro hin
  rcases List.mem_append.mp hin with hfront | hunit
  · rcases List.mem_append.mp hfront with hcolon | hnumber
    · exact absurd hcolon (by decide)
    · exact numberChar_ne_nul (printInt_numberChar hnumber) rfl
  · exact absurd hunit (by decide)

theorem formatString_value {name valueText : CString} (hname : NUL ∉ name)
    (rest : List Char) (m : CellLocals l) :
    exists old : List Char,
      (formatString (name ++ NUL :: rest) valueText m.string).value =
          some (snprintf STRING_SIZE (name ++ valueText) ++ NUL :: old) ∧
        (snprintf STRING_SIZE (name ++ valueText) ++ NUL :: old).length =
          STRING_SIZE ∧
        Inside (Within l)
          (formatString (name ++ NUL :: rest) valueText m.string) := by
  have hsize := m.stringSize
  have hshort : (snprintf STRING_SIZE (name ++ valueText)).length + 1 ≤
      STRING_SIZE := Nat.succ_le_succ (List.length_take_le _ _)
  have hroom : (snprintf STRING_SIZE (name ++ valueText) ++ [NUL]).length ≤
      m.string.length := by
    rw [List.length_append, List.length_singleton]
    omega
  exists m.string.drop
    (snprintf STRING_SIZE (name ++ valueText) ++ [NUL]).length
  unfold formatString
  rw [if_pos (by simp), cstr_append_nul hname]
  refine ⟨?_, ?_, ?_⟩
  · rw [writeFrom_front .string hroom, List.append_assoc]
    rfl
  · rw [List.length_append, List.length_cons, List.length_drop,
      List.length_append, List.length_singleton]
    omega
  · apply writeFrom_inside
    · rw [Nat.zero_add]
      exact hroom
    · intro j hj
      rw [hsize] at hj
      exact hj

theorem padString_value {text old : List Char} (htext : NUL ∉ text)
    (hsize : (text ++ NUL :: old).length = STRING_SIZE) :
    (padString (text ++ NUL :: old)).value =
        some (List.rightpad STRING_SIZE ' ' text) ∧
      Inside (Within l) (padString (text ++ NUL :: old)) := by
  have hlength := hsize
  rw [List.length_append, List.length_cons] at hlength
  have hblanks : (NUL :: old).length =
      (List.replicate (22 - text.length) ' ').length := by
    rw [List.length_replicate, List.length_cons]
    exact Nat.eq_sub_of_add_eq' hlength
  unfold padString
  rw [if_pos (by simp), cstr_append_nul htext]
  constructor
  · have hvalue := @writeFrom_value .string _ text _ [] hblanks
    rw [List.append_nil, List.append_nil] at hvalue
    exact hvalue
  · apply writeFrom_inside
    · rw [← hblanks, List.length_append]
    · intro j hj
      rw [hsize] at hj
      exact hj

theorem formatPadded_short {name valueText : CString} (hname : NUL ∉ name)
    (htext : NUL ∉ valueText) (hfits : name.length ≤ l.limit)
    (hroom : name.length < l.labelSize) (m : CellLocals l) :
    (formatPadded l name valueText m.label m.string).value =
        some (cellText l name valueText) ∧
      Inside (Within l)
        (formatPadded l name valueText m.label m.string) := by
  have hsize := m.labelSize
  have hlabel : (formatLabel l name m.label).value = some _ :=
    formatLabel_short hfits (by omega)
  rcases @formatString_value l name valueText hname
      (m.label.drop (name.length + 1)) m
    with ⟨old, hstring, hlength, hinside⟩
  have hcell : NUL ∉ snprintf STRING_SIZE (name ++ valueText) := by
    intro hin
    rcases List.mem_append.mp (List.mem_of_mem_take hin) with h | h
    · exact hname h
    · exact htext h
  rcases padString_value (l := l) hcell hlength with ⟨hpadded, hpad⟩
  rw [formatPadded, bind_value hlabel, bind_value hstring, inside_bind hlabel,
    inside_bind hstring, hpadded, cellText, List.take_of_length_le hfits]
  exact ⟨rfl, (formatLabel_inside_iff name m).mpr (Or.inr hroom), hinside, hpad⟩

/-- Behind a name that is copied and fits the terminator is written behind the string. -/
theorem formatCell_leaves {name valueText : CString} (hname : NUL ∉ name)
    (htext : NUL ∉ valueText) (hfits : name.length ≤ l.limit)
    (hroom : name.length < l.labelSize) (m : CellLocals l) :
    .string STRING_SIZE ∈
      (formatCell l name valueText m.label m.string).offsets := by
  rw [formatCell,
    mem_bind (formatPadded_short hname htext hfits hroom m).left]
  exact Or.inr (List.mem_singleton.mpr rfl)

theorem not_cellBuilt (name : SensorName) {valueText : CString}
    (htext : NUL ∉ valueText) : ¬ CellBuilt l name valueText := by
  intro h
  rcases (formatLabel_terminated_iff name.noNul).mp h.terminated
    with ⟨hfits, hroom⟩
  have hout : Within l (.string STRING_SIZE) :=
    h.within (fullLocals l) _
      (formatCell_leaves name.noNul htext hfits hroom (fullLocals l))
  exact Nat.lt_irrefl _ hout

/-- The sensor cells are built as they are to be exactly when there are none to
build. -/
theorem cellsBuilt_iff (temps : List TempReading) (fans : List FanReading) :
    CellsBuilt temps fans <->
      (forall t, t ∈ temps -> t.shown = false) ∧
        forall f, f ∈ fans -> f.shown = false := by
  constructor
  · intro h
    constructor
    · intro t ht
      by_contra hshown
      exact not_cellBuilt _ t.valueText_noNul
        (h.left t ht (Bool.not_eq_false _ ▸ hshown))
    · intro f hf
      by_contra hshown
      exact not_cellBuilt _ f.valueText_noNul
        (h.right f hf (Bool.not_eq_false _ ▸ hshown))
  · rintro ⟨htemps, hfans⟩
    constructor
    · intro t ht hshown
      rw [htemps t ht] at hshown
      cases hshown
    · intro f hf hshown
      rw [hfans f hf] at hshown
      cases hshown

def stillFan : FanReading where
  name := { text := "FAN 1".toList, short := by decide, noNul := by decide }
  value := 0

theorem stillFan_not_built : ¬ CellsBuilt [] [stillFan] := by
  intro h
  exact not_cellBuilt _ stillFan.valueText_noNul
    (h.right stillFan (List.mem_cons_self ..) (by decide))

end Screen
end Breakin
