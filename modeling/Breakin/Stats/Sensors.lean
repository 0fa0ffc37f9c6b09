import Breakin.Foundation.Fields
import Breakin.Foundation.FileTail
import Breakin.Foundation.Numbers
import Breakin.Foundation.SlotTable
import Breakin.Scheduler.State
import Breakin.Util.TrimCells

/-!
# The sensors

`get_ipmi_sensors` reads the temperatures and then the fans, a line at a time,
through one buffer, one label and one value.
-/

namespace Breakin
namespace Stats

open Foundation
open Scheduler
open Util

def MAX_TEMPS : Nat := 50

def MAX_FANS : Nat := 30

/-- An entry of `temp_data` or `fan_data`; the `double` of a temperature holds
the integer that was read. -/
structure Sensor where
  name : CString
  value : Int32
deriving DecidableEq

structure LineVars where
  buf : List Char
  label : CString
  value : Int32
  foundLabel : Bool
  foundValue : Bool

/-- `value` and `found_value` after `found_value = !!sscanf(chunk, "%d ",
&value)`, which is true for the -1 of a chunk without text. -/
def scanInto (value : Int32) : ScanResult -> Int32 × Bool
  | .endOfInput => (value, true)
  | .noMatch => (value, false)
  | .matched n => (n, true)

/-- What is done with the chunk of field `i`; `plus` is how much of the trimmed
first field is left out of the label. -/
def fieldStep (plus i chunk : Nat) (v : LineVars) : Option LineVars :=
  match i with
  | 0 => do
      let buf ← trimAt v.buf chunk
      some
        { v with
          buf := buf
          label := snprintf 20 (cstr (buf.drop (chunk + plus)))
          foundLabel := true }
  | 1 =>
      let scanned := scanInto v.value (scanInt (cstr (v.buf.drop chunk)))
      some { v with value := scanned.1, foundValue := scanned.2 }
  | _ => some v

/-- `while (string) { chunk = strsep(&string, "|"); ... i++; }` -/
def fieldLoop (plus : Nat) :
    Nat -> Nat -> Option Nat -> LineVars -> Option LineVars
  | _, _, none, v => some v
  | 0, _, some _, _ => none
  | fuel + 1, i, some string, v => do
      let cut := strsep '|' v.buf string
      let v' ← fieldStep plus i string { v with buf := cut.1 }
      fieldLoop plus fuel (i + 1) cut.2 v'

structure SensorVars where
  buf : List Char
  label : CString
  value : Int32
  qty : Nat
  table : List Sensor

def lineStart (s : SensorVars) (line : List Char) : LineVars where
  buf := fgetsInto s.buf line
  label := s.label
  value := s.value
  foundLabel := false
  foundValue := false

/-- A turn of the loop over the lines; `none` is a write behind the table. -/
def lineStep (plus max : Nat) (s : SensorVars) (line : List Char) :
    Option SensorVars := do
  let start := lineStart s line
  let v ← fieldLoop plus (start.buf.length + 1) 0 (some 0) start
  let s' := { s with buf := v.buf, label := v.label, value := v.value }
  if v.foundLabel && v.foundValue then
    if s.qty < max then do
      let table ← store s.table s.qty
        { name := snprintf 16 v.label, value := v.value }
      some { s' with qty := s.qty + 1, table := table }
    else some s'
  else some s'

/-- The tables, and what the uninitialised `buf` and `label` hold. -/
structure SensorCells where
  buf : List Char
  label : CString
  tempData : List Sensor
  fanData : List Sensor

structure SensorMemory extends SensorCells where
  bufSize : buf.length = BUFSIZ
  tempSize : tempData.length = MAX_TEMPS
  fanSize : fanData.length = MAX_FANS

structure SensorTables where
  tempQty : Nat
  tempData : List Sensor
  fanQty : Nat
  fanData : List Sensor
deriving DecidableEq

/-- The lines that `fgets` returns; a file that cannot be opened has none. -/
def linesRead (file : Option (List Char)) : List (List Char) :=
  match file with
  | none => []
  | some content => ((FileStream.opened content).readToEnd BUFSIZ).1

def tempStart (m : SensorCells) : SensorVars where
  buf := m.buf
  label := m.label
  value := 0
  qty := 0
  table := m.tempData

def fanStart (m : SensorCells) (t : SensorVars) : SensorVars :=
  { t with qty := 0, table := m.fanData }

def tempStep (s : SensorVars) (line : List Char) : Option SensorVars :=
  lineStep 0 MAX_TEMPS s line

def fanStep (s : SensorVars) (line : List Char) : Option SensorVars :=
  lineStep 3 MAX_FANS s line

def getIpmiSensors (temps fans : Option (List Char)) (m : SensorCells) :
    Option SensorTables := do
  let t ← runFrom tempStep (tempStart m) (linesRead temps)
  let f ← runFrom fanStep (fanStart m t) (linesRead fans)
  some
    { tempQty := t.qty
      tempData := t.table
      fanQty := f.qty
      fanData := f.table }

/-!
# What a line says
-/

def firstField (line : List Char) : List Char :=
  line.takeWhile fun c => c != '|'

def secondField (line : List Char) : Option (List Char) :=
  match line.dropWhile fun c => c != '|' with
  | [] => none
  | _ :: rest => some (rest.takeWhile fun c => c != '|')

def numberOf (line : List Char) : Option Int :=
  (secondField line).bind fun field => integerAt (field.dropWhile isSpace)

def sensorOf (plus : Nat) (line : List Char) : Option (CString × Int) :=
  (numberOf line).map fun n =>
    (((trim (firstField line)).drop plus).take 15, n)

def readings (qty : Nat) (table : List Sensor) : List (CString × Int) :=
  (table.take qty).map fun e => (e.name, e.value.toInt)

/-!
# The fields of a line
-/

theorem fieldLoop_rest {plus fuel i : Nat} {next : Option Nat} {v : LineVars}
    (hi : 2 ≤ i) (hnext : forall string, next = some string ->
      string ≤ v.buf.length ∧ v.buf.length < fuel + string) :
    exists buf, fieldLoop plus fuel i next v = some { v with buf := buf } ∧
      buf.length = v.buf.length := by
  induction fuel generalizing i next v with
  | zero =>
      cases next with
      | none => exact ⟨v.buf, rfl, rfl⟩
      | some string =>
          have hbound := hnext string rfl
          omega
  | succ fuel ih =>
      cases next with
      | none => exact ⟨v.buf, rfl, rfl⟩
      | some string =>
          have hbound := hnext string rfl
          have hlength := strsep_length '|' v.buf string
          have hstep : fieldStep plus i string
              { v with buf := (strsep '|' v.buf string).1 } =
              some { v with buf := (strsep '|' v.buf string).1 } := by
            match i, hi with
            | i + 2, _ => rfl
          have hloop : fieldLoop plus (fuel + 1) i (some string) v =
              fieldLoop plus fuel (i + 1) (strsep '|' v.buf string).2
                { v with buf := (strsep '|' v.buf string).1 } := by
            simp only [fieldLoop, hstep, Option.bind_eq_bind, Option.bind_some]
          have hnext' : forall string' : Nat,
              (strsep '|' v.buf string).2 = some string' ->
                string' ≤ (strsep '|' v.buf string).1.length ∧
                  (strsep '|' v.buf string).1.length < fuel + string' := by
            intro string' hstring'
            have hmove := strsep_next hstring'
            omega
          rcases @ih (i + 1) (strsep '|' v.buf string).2
              { v with buf := (strsep '|' v.buf string).1 }
              (Nat.le_succ_of_le hi) hnext'
            with ⟨buf, hrest, hbuf⟩
          exists buf
          constructor
          · rw [hloop, hrest]
          · exact hbuf.trans hlength

def trimmedCells (field rest : List Char) : List Char :=
  blankTail (field.dropWhile isBlank) ++ NUL ::
    (field ++ NUL :: rest).drop ((field.dropWhile isBlank).length + 1)

theorem trimmedCells_length (field rest : List Char) :
    (trimmedCells field rest).length = (field ++ NUL :: rest).length := by
  have hle := (List.dropWhile_sublist (l := field) isBlank).length_le
  unfold trimmedCells
  simp only [List.length_append, List.length_cons, List.length_drop,
    blankTail_length]
  omega

theorem trimmedCells_drop (field rest : List Char) :
    (trimmedCells field rest).drop (field.length + 1) = rest := by
  have hle := (List.dropWhile_sublist (l := field) isBlank).length_le
  have hback : field.length + 1 = (blankTail (field.dropWhile isBlank)).length +
      ((field.length - (field.dropWhile isBlank).length) + 1) := by
    rw [blankTail_length]
    omega
  have hsum : (field.dropWhile isBlank).length + 1 +
      (field.length - (field.dropWhile isBlank).length) = field.length + 1 := by
    omega
  unfold trimmedCells
  rw [hback, List.drop_length_add_append, List.drop_succ_cons,
    List.drop_drop, hsum]
  simp

def afterTwo (plus : Nat) (field rest : List Char) (v : LineVars) : LineVars where
  buf := (strsep '|' (trimmedCells field rest) (field.length + 1)).1
  label := snprintf 20 (cstr ((trimmedCells field rest).drop plus))
  value := (scanInto v.value (scanInt (fieldAt '|' rest))).1
  foundLabel := true
  foundValue := (scanInto v.value (scanInt (fieldAt '|' rest))).2

theorem fieldLoop_two (plus : Nat) {fuel : Nat} {field rest : List Char}
    {v : LineVars} (hbuf : v.buf = field ++ '|' :: rest) (hdelim : '|' ∉ field)
    (hnul : NUL ∉ field) (hrest : NUL ∈ rest) (hfuel : v.buf.length < fuel) :
    exists buf, fieldLoop plus fuel 0 (some 0) v =
        some { afterTwo plus field rest v with buf := buf } ∧
      buf.length = v.buf.length := by
  have hcut : strsep '|' v.buf 0 =
      (field ++ NUL :: rest, some (field.length + 1)) := by
    have hfirst := strsep_append hdelim hnul [] rest
    rw [List.nil_append, List.nil_append, List.length_nil, Nat.zero_add,
      ← hbuf] at hfirst
    exact hfirst
  have htrim : trimAt (field ++ NUL :: rest) 0 =
      some (trimmedCells field rest) := trimAt_zero hnul rest
  have hlength : (trimmedCells field rest).length = v.buf.length := by
    rw [trimmedCells_length, hbuf, List.length_append, List.length_append]
    rfl
  have hsecond : (trimmedCells field rest).take (field.length + 1) ++ rest =
      trimmedCells field rest := by
    conv => lhs; rhs; rw [← trimmedCells_drop field rest]
    exact List.take_append_drop _ _
  have hsplit : v.buf.length = field.length + (rest.length + 1) := by
    rw [hbuf, List.length_append]
    rfl
  have hat : ((trimmedCells field rest).take (field.length + 1)).length =
      field.length + 1 := by
    rw [List.length_take, hlength]
    omega
  have hne : '|' ≠ NUL := by decide
  have htext := strsep_text hne hrest
    ((trimmedCells field rest).take (field.length + 1))
  rw [hsecond, hat] at htext
  have hafter : (afterTwo plus field rest v).buf.length = v.buf.length :=
    (strsep_length _ _ _).trans hlength
  have hpos := List.length_pos_of_mem hrest
  match fuel, hfuel with
  | fuel + 2, hfuel =>
      have hloop : fieldLoop plus (fuel + 2) 0 (some 0) v =
          fieldLoop plus fuel 2
            (strsep '|' (trimmedCells field rest) (field.length + 1)).2
            (afterTwo plus field rest v) := by
        simp only [fieldLoop, fieldStep, hcut, htrim, htext, afterTwo,
          Option.bind_eq_bind, Option.bind_some, Nat.zero_add]
      have hnext : forall string' : Nat,
          (strsep '|' (trimmedCells field rest) (field.length + 1)).2 =
            some string' ->
              string' ≤ (afterTwo plus field rest v).buf.length ∧
                (afterTwo plus field rest v).buf.length < fuel + string' := by
        intro string' hstring'
        have hmove := strsep_next hstring'
        omega
      rcases fieldLoop_rest (Nat.le_refl 2) hnext with ⟨buf, hlast, hlen⟩
      exact ⟨buf, hloop.trans hlast, hlen.trans hafter⟩
  | 1, hfuel => omega
  | 0, hfuel => omega

theorem fieldLoop_one (plus : Nat) {fuel : Nat} {field rest : List Char}
    {v : LineVars} (hbuf : v.buf = field ++ NUL :: rest) (hdelim : '|' ∉ field)
    (hnul : NUL ∉ field) (hfuel : v.buf.length < fuel) :
    fieldLoop plus fuel 0 (some 0) v = some
      { v with
        buf := trimmedCells field rest
        label := snprintf 20 (cstr ((trimmedCells field rest).drop plus))
        foundLabel := true } := by
  have hcut : strsep '|' v.buf 0 = (field ++ NUL :: rest, none) := by
    have hfirst := strsep_last (by decide) hdelim hnul [] rest
    rw [List.nil_append, ← hbuf] at hfirst
    rw [← hbuf]
    exact hfirst
  have htrim : trimAt (field ++ NUL :: rest) 0 =
      some (trimmedCells field rest) := trimAt_zero hnul rest
  match fuel, hfuel with
  | fuel + 1, _ =>
      simp only [fieldLoop, fieldStep, hcut, htrim, Option.bind_eq_bind,
        Option.bind_some, Nat.zero_add]

/-!
# The label
-/

theorem cstr_eq_nil_iff {cells : List Char} (h : cells ≠ []) :
    cstr cells = [] <-> cells[0]? = some NUL := by
  cases cells with
  | nil => exact absurd rfl h
  | cons c rest =>
      by_cases hc : c = NUL
      · simp [cstr, hc]
      · simp [cstr, hc]

theorem nulRun (n : Nat) (rest : List Char) :
    exists more, List.replicate n NUL ++ NUL :: rest = NUL :: more := by
  cases n with
  | zero => exact ⟨rest, rfl⟩
  | succ n => exact ⟨List.replicate n NUL ++ NUL :: rest, rfl⟩

theorem cstr_drop_blankTail {body : List Char} (hbody : NUL ∉ body) {n : Nat}
    (hn : n ≤ body.length) (rest : List Char) :
    cstr ((blankTail body ++ NUL :: rest).drop n) =
      (body.rdropWhile isTrailing).drop n := by
  have htrim : NUL ∉ (body.rdropWhile isTrailing).drop n := fun hin =>
    hbody ((List.rdropWhile_prefix isTrailing body).subset
      (List.mem_of_mem_drop hin))
  have hcells : exists more, (blankTail body ++ NUL :: rest).drop n =
      (body.rdropWhile isTrailing).drop n ++ NUL :: more := by
    unfold blankTail
    rw [List.append_assoc]
    by_cases htext : n ≤ (body.rdropWhile isTrailing).length
    · rcases nulRun (body.length - (body.rdropWhile isTrailing).length) rest
        with ⟨more, hmore⟩
      exists more
      rw [List.drop_append_of_le_length htext, hmore]
    · -- the trailing blanks have become NULs
      rcases nulRun (body.length - (body.rdropWhile isTrailing).length -
          (n - (body.rdropWhile isTrailing).length)) rest with ⟨more, hmore⟩
      have hnil : (body.rdropWhile isTrailing).drop n = [] :=
        List.drop_eq_nil_of_le (by omega)
      exists more
      rw [List.drop_append, hnil, List.nil_append, List.nil_append,
        List.drop_append_of_le_length (by rw [List.length_replicate]; omega),
        List.drop_replicate, hmore]
  rcases hcells with ⟨more, hmore⟩
  rw [hmore, cstr_append_nul htrim]

theorem trimmedCells_drop_behind {field rest : List Char} {n : Nat}
    (hn : (field.dropWhile isBlank).length < n) :
    (trimmedCells field rest).drop n = (field ++ NUL :: rest).drop n := by
  have hsplit : n = (blankTail (field.dropWhile isBlank)).length +
      ((n - (field.dropWhile isBlank).length - 1) + 1) := by
    rw [blankTail_length]
    omega
  have hsum : (field.dropWhile isBlank).length + 1 +
      (n - (field.dropWhile isBlank).length - 1) = n := by omega
  unfold trimmedCells
  conv => lhs; rw [hsplit]
  rw [List.drop_length_add_append, List.drop_succ_cons, List.drop_drop, hsum]

/-- The label is in its place: it starts in the text, or where the field ends, or
at a NUL. -/
def LabelInPlace (plus : Nat) (buf line : List Char) : Prop :=
  plus ≤ ((firstField line).dropWhile isBlank).length ∨
    (firstField line).length = plus ∨
      (fgetsInto buf line)[plus]? = some NUL

theorem label_iff {plus : Nat} {field rest : List Char} (hnul : NUL ∉ field)
    (hplus : plus < (field ++ '|' :: rest).length) :
    (cstr ((trimmedCells field rest).drop plus)).take 15 =
        ((trim field).drop plus).take 15 <->
      plus ≤ (field.dropWhile isBlank).length ∨ field.length = plus ∨
        (field ++ '|' :: rest)[plus]? = some NUL := by
  have hbody : NUL ∉ field.dropWhile isBlank :=
    fun hin => hnul ((List.dropWhile_sublist isBlank).subset hin)
  by_cases hin : plus ≤ (field.dropWhile isBlank).length
  · have hlabel := cstr_drop_blankTail hbody hin
      ((field ++ NUL :: rest).drop ((field.dropWhile isBlank).length + 1))
    exact ⟨fun _ => Or.inl hin, fun _ => congrArg (List.take 15) hlabel⟩
  · have hbehind : (field.dropWhile isBlank).length < plus := by omega
    have hle := (List.rdropWhile_prefix isTrailing
      (field.dropWhile isBlank)).length_le
    have hshort : (trim field).drop plus = [] := by
      apply List.drop_eq_nil_of_le
      change ((field.dropWhile isBlank).rdropWhile isTrailing).length ≤ plus
      omega
    have hcells : (field ++ NUL :: rest).drop plus ≠ [] := by
      intro hnil
      rw [List.drop_eq_nil_iff] at hnil
      simp only [List.length_append, List.length_cons] at hnil hplus
      omega
    have hname (x : List Char) : x.take 15 = ([] : List Char).take 15 <->
        x = [] := by simp
    rw [trimmedCells_drop_behind hbehind, hshort, hname,
      cstr_eq_nil_iff hcells, List.getElem?_drop, Nat.add_zero]
    constructor
    · intro hcell
      right
      by_cases hend : field.length = plus
      · exact Or.inl hend
      · right
        by_cases hfield : plus < field.length
        · rw [List.getElem?_append_left hfield] at hcell
          exact absurd (List.mem_of_getElem? hcell) hnul
        · have hstep : plus - field.length =
              (plus - field.length - 1) + 1 := by omega
          rw [List.getElem?_append_right (by omega), hstep] at hcell ⊢
          exact hcell
    · rintro (htext | hend | hcell)
      · exact absurd htext hin
      · rw [← hend]
        exact read_append field rest NUL
      · by_cases hfield : plus < field.length
        · rw [List.getElem?_append_left hfield] at hcell ⊢
          exact hcell
        · rw [List.getElem?_append_right (by omega)] at hcell ⊢
          cases hdist : plus - field.length with
          | zero => rfl
          | succ d =>
              rw [hdist] at hcell
              exact hcell

/-!
# One line

The variables after a line give its own reading exactly when nothing in the line
leads the loop astray.
-/

def LineVars.entry (v : LineVars) : Option Sensor :=
  if v.foundLabel && v.foundValue then
    some { name := snprintf 16 v.label, value := v.value }
  else none

def Sensor.reading (e : Sensor) : CString × Int :=
  (e.name, e.value.toInt)

/-- The conditions on a line that is read into `buf`. -/
structure LineFits (plus : Nat) (buf line : List Char) : Prop where
  text : numberOf line ≠ none -> NUL ∉ firstField line
  value : forall field, secondField line = some field ->
    NUL ∉ firstField line -> exists c, c ∈ cstr field ∧ isSpace c = false
  range : forall n, numberOf line = some n -> -2 ^ 31 ≤ n ∧ n < 2 ^ 31
  label : numberOf line ≠ none -> LabelInPlace plus buf line

theorem firstField_not_mem (line : List Char) : '|' ∉ firstField line := by
  intro h
  have hp := List.mem_takeWhile_imp h
  simp at hp

theorem line_cases (line : List Char) :
    (secondField line = none ∧ firstField line = line) ∨
      exists more, line = firstField line ++ '|' :: more ∧
        secondField line = some (more.takeWhile fun c => c != '|') := by
  have hsplit : firstField line ++ line.dropWhile (fun c => c != '|') = line :=
    List.takeWhile_append_dropWhile
  unfold secondField
  cases hrest : line.dropWhile fun c => c != '|' with
  | nil =>
      left
      rw [hrest, List.append_nil] at hsplit
      exact ⟨rfl, hsplit⟩
  | cons c more =>
      right
      have hc := List.head_dropWhile_not (fun c => c != '|') (l := line)
        (by rw [hrest]; simp)
      simp only [hrest, List.head_cons, bne_eq_false_iff_eq] at hc
      rw [hc] at hrest
      rw [hrest] at hsplit
      exact ⟨more, hsplit.symm, rfl⟩

theorem fieldAt_eq_cstr (more rest : List Char) :
    fieldAt '|' (more ++ NUL :: rest) =
      cstr (more.takeWhile fun c => c != '|') := by
  induction more with
  | nil => rfl
  | cons c more ih =>
      by_cases hdelim : c = '|'
      · rw [hdelim]
        rfl
      · by_cases hnul : c = NUL
        · rw [hnul]
          rfl
        · have hfield : fieldAt '|' (c :: (more ++ NUL :: rest)) =
              c :: fieldAt '|' (more ++ NUL :: rest) :=
            List.takeWhile_cons_of_pos (by simp [hdelim, hnul])
          rw [List.cons_append, hfield, ih,
            List.takeWhile_cons_of_pos (by simp [hdelim]), cstr_cons hnul]

theorem sensorOf_eq_none {plus : Nat} {line : List Char} :
    sensorOf plus line = none <-> numberOf line = none :=
  Option.map_eq_none_iff

theorem lineFits_of_no_field {plus : Nat} {buf line : List Char}
    (h : secondField line = none ∨ NUL ∈ firstField line) :
    sensorOf plus line = none <-> LineFits plus buf line := by
  rw [sensorOf_eq_none]
  constructor
  · intro hnone
    constructor
    · intro hnumber
      exact absurd hnone hnumber
    · intro field hfield hnul
      rcases h with hsecond | hfirst
      · rw [hsecond] at hfield
        cases hfield
      · exact absurd hfirst hnul
    · intro n hn
      rw [hnone] at hn
      cases hn
    · intro hnumber
      exact absurd hnone hnumber
  · intro hfits
    by_cases hnumber : numberOf line = none
    · exact hnumber
    · rcases h with hsecond | hfirst
      · unfold numberOf
        rw [hsecond]
        rfl
      · exact absurd hfirst (hfits.text hnumber)

theorem lineFits_iff {plus : Nat} {buf line field : List Char}
    (hsecond : secondField line = some field) (hnul : NUL ∉ firstField line) :
    LineFits plus buf line <->
      (exists c, c ∈ cstr field ∧ isSpace c = false) ∧
        forall n, numberOf line = some n ->
          LabelInPlace plus buf line ∧ -2 ^ 31 ≤ n ∧ n < 2 ^ 31 := by
  constructor
  · intro hfits
    constructor
    · exact hfits.value field hsecond hnul
    · intro n hn
      exact ⟨hfits.label (by rw [hn]; simp), hfits.range n hn⟩
  · rintro ⟨htext, hnumber⟩
    constructor
    · intro _
      exact hnul
    · intro field' hfield' _
      rw [hsecond, Option.some.injEq] at hfield'
      rw [← hfield']
      exact htext
    · intro n hn
      exact (hnumber n hn).right
    · intro hsome
      rcases Option.ne_none_iff_exists'.mp hsome with ⟨n, hn⟩
      exact (hnumber n hn).left

/-- The entry of a matched number is the line's reading when the label is in its
place and the number fits. -/
theorem reading_iff {plus : Nat} {buf line more : List Char}
    (hline : line = firstField line ++ '|' :: more)
    (hnul : NUL ∉ firstField line) (hplus : plus < buf.length)
    (hbuf : line.length < buf.length) (n : Int) :
    Sensor.reading
        { name := snprintf 16 (snprintf 20 (cstr ((trimmedCells
            (firstField line) (more ++ NUL :: buf.drop
              (line.length + 1))).drop plus)))
          value := Int32.ofInt (clampLong n) } =
        (((trim (firstField line)).drop plus).take 15, n) <->
      LabelInPlace plus buf line ∧ -2 ^ 31 ≤ n ∧ n < 2 ^ 31 := by
  have hcells : fgetsInto buf line = firstField line ++ '|' ::
      (more ++ NUL :: buf.drop (line.length + 1)) := by
    unfold fgetsInto
    conv => lhs; lhs; rw [hline]
    rw [List.append_assoc]
    rfl
  have hname := @label_iff plus (firstField line)
    (more ++ NUL :: buf.drop (line.length + 1)) hnul
    (by rw [← hcells, fgetsInto_length hbuf]; exact hplus)
  rw [← hcells] at hname
  change _ <-> LabelInPlace plus buf line at hname
  have htake (x : CString) : snprintf 16 (snprintf 20 x) = x.take 15 :=
    List.take_take
  unfold Sensor.reading
  rw [Prod.mk.injEq, htake, hname, clampLong_toInt32]

theorem lineFits_of_two {plus : Nat} {buf line more : List Char}
    (hline : line = firstField line ++ '|' :: more)
    (hsecond : secondField line = some (more.takeWhile fun c => c != '|'))
    (hnul : NUL ∉ firstField line) (hplus : plus < buf.length)
    (hbuf : line.length < buf.length) (v : LineVars) :
    (afterTwo plus (firstField line)
        (more ++ NUL :: buf.drop (line.length + 1)) v).entry.map
          Sensor.reading = sensorOf plus line <->
      LineFits plus buf line := by
  generalize hfield : more.takeWhile (fun c => c != '|') = field at hsecond
  have hnumber : numberOf line = integerAt (field.dropWhile isSpace) := by
    unfold numberOf
    rw [hsecond]
    rfl
  have hscan : fieldAt '|' (more ++ NUL :: buf.drop (line.length + 1)) =
      cstr field := by
    rw [fieldAt_eq_cstr, hfield]
  rw [lineFits_iff hsecond hnul, hnumber]
  unfold afterTwo LineVars.entry sensorOf
  rw [hnumber]
  simp only [hscan]
  rcases scanInt_cases field with ⟨hend, hblank, hnone⟩ | ⟨hsome, hrest⟩
  · -- no text: `sscanf` returns -1, and the value is that of a line before
    rw [hend, hnone]
    constructor
    · intro h
      cases h
    · rintro ⟨⟨c, hc, hspace⟩, _⟩
      rw [hblank c hc] at hspace
      cases hspace
  · rcases hrest with ⟨hno, hnone⟩ | ⟨n, hmatch, hn⟩
    · -- text that is no number: no entry
      rw [hno, hnone]
      constructor
      · intro _
        constructor
        · exact hsome
        · intro n hn
          cases hn
      · intro _
        rfl
    · -- a number: the entry has its low 32 bits
      rw [hmatch, hn]
      have hentry := reading_iff hline hnul hplus hbuf n
      constructor
      · intro h
        constructor
        · exact hsome
        · intro m hm
          cases hm
          exact hentry.mp (Option.some.inj h)
      · rintro ⟨_, hfits⟩
        exact congrArg some (hentry.mpr (hfits n rfl))

/-- The loop over the fields ends, and what it finds is the line's own reading
exactly when the line fits. -/
theorem fieldLoop_line {plus : Nat} {s : SensorVars} {line : List Char}
    (hplus : plus < s.buf.length) (hline : line.length < s.buf.length) :
    exists v, fieldLoop plus ((lineStart s line).buf.length + 1) 0 (some 0)
          (lineStart s line) = some v ∧
      v.buf.length = s.buf.length ∧
        (v.entry.map Sensor.reading = sensorOf plus line <->
          LineFits plus s.buf line) := by
  have hlength : (lineStart s line).buf.length = s.buf.length :=
    fgetsInto_length hline
  have hfuel := Nat.lt_succ_self (lineStart s line).buf.length
  by_cases hnul : NUL ∈ firstField line
  · -- the string ends in the first field
    rcases exists_string hnul with ⟨field, more, hfield, hfirst⟩
    have hdelim : '|' ∉ field := by
      intro hin
      apply firstField_not_mem line
      rw [hfirst]
      exact List.mem_append_left _ hin
    have hwhole : firstField line ++ line.dropWhile (fun c => c != '|') =
        line := List.takeWhile_append_dropWhile
    have hcells : exists rest, (lineStart s line).buf =
        field ++ NUL :: rest := by
      unfold lineStart fgetsInto
      rw [← hwhole, hfirst]
      simp
    rcases hcells with ⟨rest, hrest⟩
    have hloop := fieldLoop_one plus hrest hdelim hfield hfuel
    refine ⟨_, hloop, ?_, ?_⟩
    · rw [trimmedCells_length, ← hrest, hlength]
    · exact eq_comm.trans (lineFits_of_no_field (Or.inr hnul))
  · rcases line_cases line with ⟨hsecond, hfirst⟩ | ⟨more, hwhole, hsecond⟩
    · -- no delimiter: the first field is the line
      have hdelim : '|' ∉ line := by
        have hmem := firstField_not_mem line
        rw [hfirst] at hmem
        exact hmem
      have hcells : (lineStart s line).buf =
          line ++ NUL :: s.buf.drop (line.length + 1) := rfl
      rw [hfirst] at hnul
      have hloop := fieldLoop_one plus hcells hdelim hnul hfuel
      refine ⟨_, hloop, ?_, ?_⟩
      · exact (trimmedCells_length _ _).trans hlength
      · exact eq_comm.trans (lineFits_of_no_field (Or.inl hsecond))
    · have hcells : (lineStart s line).buf = firstField line ++ '|' ::
          (more ++ NUL :: s.buf.drop (line.length + 1)) := by
        change line ++ NUL :: s.buf.drop (line.length + 1) = _
        conv => lhs; lhs; rw [hwhole]
        rw [List.append_assoc]
        rfl
      rcases fieldLoop_two plus hcells (firstField_not_mem line) hnul
          (by simp) hfuel
        with ⟨buf', hloop, hbuf'⟩
      refine ⟨_, hloop, hbuf'.trans hlength, ?_⟩
      exact lineFits_of_two hwhole hsecond hnul hplus hline _

/-!
# The table
-/

structure SensorVars.InBounds (max : Nat) (s : SensorVars) : Prop where
  buf : s.buf.length = BUFSIZ
  table : s.table.length = max
  qty : s.qty ≤ max

theorem readings_length {qty : Nat} {table : List Sensor}
    (h : qty ≤ table.length) : (readings qty table).length = qty := by
  unfold readings
  rw [List.length_map, List.length_take]
  omega

theorem readings_set {qty : Nat} {table : List Sensor} (h : qty < table.length)
    (e : Sensor) : readings (qty + 1) (table.set qty e) =
      readings qty table ++ [e.reading] := by
  have htake : (table.set qty e).take qty = table.take qty := by
    rw [List.take_set, List.set_eq_of_length_le (by simp)]
  unfold readings
  rw [List.take_succ_eq_append_getElem (by rw [List.length_set]; exact h),
    htake, List.getElem_set_self, List.map_append]
  rfl

/-- A turn adds the entry to the readings, when there is room. -/
theorem lineStep_spec {plus max : Nat} {s : SensorVars} {line : List Char}
    (hs : s.InBounds max) (hplus : plus < BUFSIZ)
    (hline : line.length < BUFSIZ) :
    exists t, lineStep plus max s line = some t ∧ t.InBounds max ∧
      exists o : Option (CString × Int),
        readings t.qty t.table =
            (readings s.qty s.table ++ o.toList).take max ∧
          (o = sensorOf plus line <-> LineFits plus s.buf line) := by
  rw [← hs.buf] at hplus hline
  rcases fieldLoop_line hplus hline with ⟨v, hloop, hbuf, hiff⟩
  have hqty := hs.qty
  have hlen : (readings s.qty s.table).length = s.qty :=
    readings_length (by rw [hs.table]; exact hqty)
  have hv : v.buf.length = BUFSIZ := hbuf.trans hs.buf
  unfold lineStep
  simp only [hloop, Option.bind_eq_bind, Option.bind_some]
  by_cases hfound : (v.foundLabel && v.foundValue) = true
  · have hentry : v.entry =
        some { name := snprintf 16 v.label, value := v.value } := if_pos hfound
    rw [hentry, Option.map_some] at hiff
    rw [if_pos hfound]
    by_cases hroom : s.qty < max
    · have hslot : s.qty < s.table.length := by
        rw [hs.table]
        exact hroom
      have hstore := store_of_lt hslot
        { name := snprintf 16 v.label, value := v.value : Sensor }
      rw [if_pos hroom]
      simp only [hstore, Option.bind_some]
      refine ⟨_, rfl, ⟨hv, by simp [hs.table], hroom⟩, _, ?_, hiff⟩
      rw [readings_set hslot, List.take_of_length_le]
      · rfl
      · rw [List.length_append, hlen]
        exact hroom
    · rw [if_neg hroom]
      refine ⟨_, rfl, ⟨hv, hs.table, hqty⟩, _, ?_, hiff⟩
      have hfull : max ≤ (readings s.qty s.table).length := by omega
      rw [List.take_append_of_le_length hfull, List.take_of_length_le]
      rw [hlen]
      exact hqty
  · have hentry : v.entry = none := if_neg hfound
    rw [hentry, Option.map_none] at hiff
    rw [if_neg hfound]
    refine ⟨_, rfl, ⟨hv, hs.table, hqty⟩, _, ?_, hiff⟩
    rw [Option.toList_none, List.append_nil, List.take_of_length_le]
    rw [hlen]
    exact hqty

/-!
# Both files

Whatever they hold, the loops come to their ends inside the tables.
-/

def SensorVars.read (s : SensorVars) : List (CString × Int) :=
  readings s.qty s.table

theorem sensorLines_collect (plus max : Nat) (hplus : plus < BUFSIZ) :
    Collector (lineStep plus max) max SensorVars.read (sensorOf plus)
      (SensorVars.InBounds max) (fun line => line.length < BUFSIZ)
      (fun s line => LineFits plus s.buf line) :=
  ⟨fun _ _ hs hline => lineStep_spec hs hplus hline⟩

theorem tempStart_inBounds (m : SensorMemory) :
    (tempStart m.toSensorCells).InBounds MAX_TEMPS :=
  ⟨m.bufSize, m.tempSize, Nat.zero_le _⟩

theorem fanStart_inBounds (m : SensorMemory) {t : SensorVars}
    (ht : t.InBounds MAX_TEMPS) :
    (fanStart m.toSensorCells t).InBounds MAX_FANS :=
  ⟨ht.buf, m.fanSize, Nat.zero_le _⟩

theorem linesRead_short {file : Option (List Char)} {line : List Char}
    (h : line ∈ linesRead file) : line.length < BUFSIZ := by
  cases file with
  | none => cases h
  | some content =>
      have hle : line.length ≤ BUFSIZ - 1 := FileStream.readLoop_length h
      have hsize : 0 < BUFSIZ := by decide
      omega

theorem getIpmiSensors_runs (m : SensorMemory)
    (temps fans : Option (List Char)) :
    exists t f,
      runFrom tempStep (tempStart m.toSensorCells) (linesRead temps) =
          some t ∧
        runFrom fanStep (fanStart m.toSensorCells t) (linesRead fans) =
            some f ∧
          t.InBounds MAX_TEMPS ∧ f.InBounds MAX_FANS ∧
            getIpmiSensors temps fans m.toSensorCells =
              some { tempQty := t.qty, tempData := t.table
                     fanQty := f.qty, fanData := f.table } := by
  rcases (sensorLines_collect 0 MAX_TEMPS (by decide)).run
      (tempStart_inBounds m) (fun _ hline => linesRead_short hline)
    with ⟨t, htrun, ht⟩
  rcases (sensorLines_collect 3 MAX_FANS (by decide)).run
      (fanStart_inBounds m ht) (fun _ hline => linesRead_short hline)
    with ⟨f, hfrun, hf⟩
  refine ⟨t, f, htrun, hfrun, ht, hf, ?_⟩
  unfold getIpmiSensors
  change ((runFrom (lineStep 0 MAX_TEMPS) _ _).bind fun t =>
    (runFrom (lineStep 3 MAX_FANS) _ _).bind _) = _
  rw [htrun, Option.bind_some, hfrun]
  rfl

/-!
# Files whose lines fit the buffer
-/

structure SensorFile where
  content : List Char
  short : forall line, line ∈ textLines content -> line.length < BUFSIZ

def linesOf : Option SensorFile -> List (List Char)
  | none => []
  | some file => textLines file.content

theorem linesRead_eq (file : Option SensorFile) :
    linesRead (file.map SensorFile.content) = linesOf file := by
  cases file with
  | none => rfl
  | some file => exact readToEnd_textLines file.short

theorem linesOf_short {file : Option SensorFile} {line : List Char}
    (h : line ∈ linesOf file) : line.length < BUFSIZ := by
  cases file with
  | none => cases h
  | some file => exact file.short line h

def StepFits (plus max : Nat) (s : SensorVars) (line : List Char) : Prop :=
  s.read.length < max -> LineFits plus s.buf line

def ownReadings (plus max : Nat) (file : Option SensorFile) :
    List (CString × Int) :=
  ((linesOf file).filterMap (sensorOf plus)).take max

structure TablesOwn (tempFile fanFile : Option SensorFile)
    (r : SensorTables) : Prop where
  temps : readings r.tempQty r.tempData = ownReadings 0 MAX_TEMPS tempFile
  fans : readings r.fanQty r.fanData = ownReadings 3 MAX_FANS fanFile

structure ReadsOwn (m : SensorCells) (tempFile fanFile : Option SensorFile) :
    Prop where
  temps : Collected tempStep MAX_TEMPS SensorVars.read (sensorOf 0)
    (tempStart m) (linesOf tempFile)
  fans : forall t, runFrom tempStep (tempStart m) (linesOf tempFile) = some t ->
    Collected fanStep MAX_FANS SensorVars.read (sensorOf 3) (fanStart m t)
      (linesOf fanFile)

structure LinesFit (m : SensorCells) (tempFile fanFile : Option SensorFile) :
    Prop where
  temps : StepsMeet tempStep (tempStart m) (linesOf tempFile)
    (StepFits 0 MAX_TEMPS)
  fans : forall t, runFrom tempStep (tempStart m) (linesOf tempFile) = some t ->
    StepsMeet fanStep (fanStart m t) (linesOf fanFile) (StepFits 3 MAX_FANS)

theorem readsOwn_iff (m : SensorMemory) (tempFile fanFile : Option SensorFile) :
    ReadsOwn m.toSensorCells tempFile fanFile <->
      LinesFit m.toSensorCells tempFile fanFile := by
  have htempCollect := sensorLines_collect 0 MAX_TEMPS (by decide)
  have hfanCollect := sensorLines_collect 3 MAX_FANS (by decide)
  have htemps := tempStart_inBounds m
  have htempLines : forall line, line ∈ linesOf tempFile ->
      line.length < BUFSIZ := fun _ hline => linesOf_short hline
  have hfanLines : forall line, line ∈ linesOf fanFile ->
      line.length < BUFSIZ := fun _ hline => linesOf_short hline
  have htempIff := htempCollect.collected_iff htemps rfl htempLines
  have hfanIff (t : SensorVars) (ht : t.InBounds MAX_TEMPS) :=
    hfanCollect.collected_iff (fanStart_inBounds m ht) rfl hfanLines
  rcases htempCollect.run htemps htempLines with ⟨t, htrun, ht⟩
  constructor
  · intro hreads
    constructor
    · exact htempIff.mp hreads.temps
    · intro u hu
      have hsame : t = u := Option.some.inj (htrun.symm.trans hu)
      rw [← hsame]
      exact (hfanIff t ht).mp (hreads.fans t htrun)
  · intro hfits
    constructor
    · exact htempIff.mpr hfits.temps
    · intro u hu
      have hsame : t = u := Option.some.inj (htrun.symm.trans hu)
      rw [← hsame]
      exact (hfanIff t ht).mpr (hfits.fans t htrun)

/-- `get_ipmi_sensors` comes to its end, and every line gives its own reading
exactly when every line fits. -/
theorem ipmiSensors_own_iff (m : SensorMemory)
    (tempFile fanFile : Option SensorFile) :
    exists r, getIpmiSensors (tempFile.map SensorFile.content)
        (fanFile.map SensorFile.content) m.toSensorCells = some r ∧
      (ReadsOwn m.toSensorCells tempFile fanFile ->
        TablesOwn tempFile fanFile r) ∧
        (ReadsOwn m.toSensorCells tempFile fanFile <->
          LinesFit m.toSensorCells tempFile fanFile) := by
  rcases getIpmiSensors_runs m (tempFile.map SensorFile.content)
      (fanFile.map SensorFile.content)
    with ⟨t, f, htrun, hfrun, _, _, hcall⟩
  rw [linesRead_eq] at htrun hfrun
  refine ⟨_, hcall, fun hreads => ?_, readsOwn_iff m tempFile fanFile⟩
  constructor
  · exact hreads.temps (linesOf tempFile) [] t (List.append_nil _).symm htrun
  · exact hreads.fans t htrun (linesOf fanFile) [] f (List.append_nil _).symm
      hfrun

/-!
# A sensor that is not read

It gets the value of the line before.
-/

def clearMemory : SensorMemory where
  buf := List.replicate BUFSIZ NUL
  label := []
  tempData := List.replicate MAX_TEMPS { name := [], value := 0 }
  fanData := List.replicate MAX_FANS { name := [], value := 0 }
  bufSize := List.length_replicate
  tempSize := List.length_replicate
  fanSize := List.length_replicate

def unreadFile : SensorFile where
  content := "CPU | 41 | ok\nSYS |  | ns\n".toList
  short := by decide

theorem unreadRun_not_own :
    ¬ exists r, getIpmiSensors (some unreadFile.content) none
        clearMemory.toSensorCells = some r ∧
      TablesOwn (some unreadFile) none r := by
  rintro ⟨r, hcall, hown⟩
  have hread : (getIpmiSensors (some unreadFile.content) none
      clearMemory.toSensorCells).map (fun r => readings r.tempQty r.tempData) =
      some [("CPU".toList, 41), ("SYS".toList, 41)] := by decide +kernel
  have hwanted : ownReadings 0 MAX_TEMPS (some unreadFile) =
      [("CPU".toList, 41)] := by decide +kernel
  rw [hcall, Option.map_some, hown.temps, hwanted] at hread
  cases hread

end Stats
end Breakin
