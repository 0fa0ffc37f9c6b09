import Breakin.Scripts.Ipmi

/-!
# From a sensor to its entry

`ipmitool` prints a row of five columns for each sensor.  The pipeline of `ipmi.sh`
leaves the name and the reading of it, without the type of the sensor, and
`get_ipmi_sensors` takes the number from the front of the reading.
-/

namespace Breakin
namespace Scripts

open Foundation
open Scheduler
open Stats
open Util

/-- A row of `ipmitool sdr type`. -/
structure SdrRow where
  name : List Char
  id : List Char
  status : List Char
  entity : List Char
  reading : List Char
  clean : forall field, field ∈ [name, id, status, entity, reading] ->
    '|' ∉ field ∧ '\n' ∉ field ∧ NUL ∉ field

namespace SdrRow

def text (row : SdrRow) : List Char :=
  row.name ++ '|' :: (row.id ++ '|' :: (row.status ++ '|' ::
    (row.entity ++ '|' :: row.reading)))

def label (word : List Char) (row : SdrRow) : List Char :=
  removeFirst word row.name

def line (word : List Char) (row : SdrRow) : List Char :=
  row.label word ++ '|' :: row.reading

def entry (word : List Char) (plus : Nat) (row : SdrRow) : Option (CString × Int) :=
  (integerAt (row.reading.dropWhile isSpace)).map fun n =>
    (((trim (row.label word)).drop plus).take 15, n)

/-- A row that is not too long, with something for a reading, an `int` if it is a
number, and a name with as many characters as are left out of it. -/
structure Fits (word : List Char) (plus : Nat) (row : SdrRow) : Prop where
  bare : ¬ word <:+: row.reading
  visible : exists c, c ∈ row.reading ∧ isSpace c = false
  range : forall n, integerAt (row.reading.dropWhile isSpace) = some n ->
    -2 ^ 31 ≤ n ∧ n < 2 ^ 31
  name : plus ≤ ((row.label word).dropWhile isBlank).length
  short : (row.line word).length + 1 < BUFSIZ

end SdrRow

/-- All rows of one call of `ipmitool`. -/
def sdrOutput (rows : List SdrRow) : List Char :=
  streamOf (rows.map SdrRow.text)

/-!
# The pipeline
-/

theorem removeFirst_subset (word line : List Char) :
    forall c, c ∈ removeFirst word line -> c ∈ line := by
  induction line with
  | nil => exact fun c hc => hc
  | cons d rest ih =>
      intro c hc
      rw [removeFirst] at hc
      split at hc
      · exact List.mem_of_mem_drop hc
      · rcases List.mem_cons.mp hc with rfl | hrest
        · exact List.mem_cons_self
        · exact List.mem_cons_of_mem d (ih c hrest)

namespace SdrRow

variable {word : List Char} {plus : Nat} {row : SdrRow}

theorem text_noNewline (row : SdrRow) : '\n' ∉ row.text := by
  have hfield : forall field, field ∈ [row.name, row.id, row.status, row.entity,
      row.reading] -> '\n' ∉ field := fun field h => (row.clean field h).right.left
  simp only [List.forall_mem_cons] at hfield
  rcases hfield with ⟨hname, hid, hstatus, hentity, hreading, _⟩
  unfold text
  simp [hname, hid, hstatus, hentity, hreading]

theorem label_clean (word : List Char) (row : SdrRow) :
    '|' ∉ row.label word ∧ '\n' ∉ row.label word ∧ NUL ∉ row.label word := by
  have hsubset := removeFirst_subset word row.name
  rcases row.clean row.name (by simp) with ⟨hbar, hend, hnul⟩
  exact ⟨fun h => hbar (hsubset _ h), fun h => hend (hsubset _ h),
    fun h => hnul (hsubset _ h)⟩

theorem line_noNewline (word : List Char) (row : SdrRow) : '\n' ∉ row.line word := by
  have hlabel := (row.label_clean word).right.left
  have hreading := (row.clean row.reading (by simp)).right.left
  unfold line
  simp [hlabel, hreading]

theorem piped (hword : '|' ∉ word) (h : ¬ word <:+: row.reading) :
    removeFirst word (cutFields '|' [1, 5] row.text) = row.line word := by
  unfold text
  rw [cutFields_one_five fun field hfield => (row.clean field hfield).left,
    removeFirst_append hword h]
  rfl

end SdrRow

theorem takeWhile_lineOf {body : List Char} (h : '\n' ∉ body) :
    (lineOf body).takeWhile (fun c => c != '\n') = body := by
  unfold lineOf
  rw [List.takeWhile_append_of_pos]
  · exact List.append_nil body
  · intro c hc
    rw [bne_iff_ne]
    intro heq
    exact h (heq ▸ hc)

theorem sdrText_rows {word : List Char} (hword : '|' ∉ word) {rows : List SdrRow}
    (h : forall row, row ∈ rows -> ¬ word <:+: row.reading) :
    sdrText word (sdrOutput rows) = streamOf (rows.map (SdrRow.line word)) := by
  have hbodies : forall body, body ∈ rows.map SdrRow.text -> '\n' ∉ body := by
    intro body hbody
    rcases List.mem_map.mp hbody with ⟨row, _, rfl⟩
    exact row.text_noNewline
  unfold sdrText sdrOutput
  rw [textLines_streamOf hbodies, List.map_map, List.map_map]
  congr 1
  apply List.map_congr_left
  intro row hrow
  show removeFirst word (cutFields '|' [1, 5]
    ((lineOf row.text).takeWhile fun c => c != '\n')) = row.line word
  rw [takeWhile_lineOf row.text_noNewline, SdrRow.piped hword (h row hrow)]

/-!
# The lines
-/

theorem unsignedAt_lineEnd (s : List Char) :
    unsignedAt (s ++ ['\n']) = unsignedAt s := by
  have hdigits : (s ++ ['\n']).takeWhile Char.isDigit = s.takeWhile Char.isDigit := by
    rw [List.takeWhile_append]
    split
    · rename_i hall
      rw [(List.takeWhile_prefix _).eq_of_length hall]
      exact List.append_nil s
    · rfl
  unfold unsignedAt
  rw [hdigits]

theorem integerAt_append_lineEnd (s : List Char) :
    integerAt (s ++ ['\n']) = integerAt s := by
  cases s with
  | nil => rfl
  | cons c s =>
      have hwhole := unsignedAt_lineEnd (c :: s)
      rw [List.cons_append] at hwhole ⊢
      by_cases hminus : c = '-'
      · rw [hminus, integerAt, integerAt, unsignedAt_lineEnd]
      · by_cases hplus : c = '+'
        · rw [hplus, integerAt, integerAt, unsignedAt_lineEnd]
        · simp [integerAt, hminus, hplus, hwhole]

theorem integerAt_lineEnd (s : List Char) :
    integerAt ((s ++ ['\n']).dropWhile isSpace) = integerAt (s.dropWhile isSpace) := by
  rw [List.dropWhile_append]
  split
  · rename_i hempty
    rw [List.isEmpty_iff.mp hempty]
    rfl
  · exact integerAt_append_lineEnd _

namespace SdrRow

variable {word : List Char} {plus : Nat} {row : SdrRow}

theorem fields (word : List Char) (row : SdrRow) :
    firstField (lineOf (row.line word)) = row.label word ∧
      secondField (lineOf (row.line word)) = some (row.reading ++ ['\n']) := by
  have hlabel := (row.label_clean word).left
  have hreading := (row.clean row.reading (by simp)).left
  have htext : lineOf (row.line word) =
      row.label word ++ '|' :: (row.reading ++ ['\n']) := by
    unfold lineOf line
    rw [List.append_assoc]
    rfl
  rcases takeWhile_ne_append hlabel (row.reading ++ ['\n']) with ⟨htake, hdrop⟩
  unfold firstField secondField
  rw [htext, htake, hdrop]
  refine ⟨rfl, congrArg some ?_⟩
  rw [List.takeWhile_eq_self_iff]
  intro c hc
  rw [bne_iff_ne]
  rintro rfl
  rcases List.mem_append.mp hc with hin | hend
  · exact hreading hin
  · exact absurd (List.mem_singleton.mp hend) (by decide)

theorem numberOf_line (word : List Char) (row : SdrRow) :
    numberOf (lineOf (row.line word)) = integerAt (row.reading.dropWhile isSpace) := by
  unfold numberOf
  rw [(row.fields word).right, Option.bind_some, integerAt_lineEnd]

theorem sensorOf_line (word : List Char) (plus : Nat) (row : SdrRow) :
    sensorOf plus (lineOf (row.line word)) = row.entry word plus := by
  unfold sensorOf entry
  rw [row.numberOf_line word, (row.fields word).left]

/-- A row that fits gives a line that does, whatever the buffer held before. -/
theorem Fits.line_fits (h : row.Fits word plus) (buf : List Char) :
    LineFits plus buf (lineOf (row.line word)) := by
  rcases row.fields word with ⟨hfirst, hsecond⟩
  constructor
  case text =>
    intro _
    rw [hfirst]
    exact (row.label_clean word).right.right
  case value =>
    intro field hfield _
    rw [hsecond] at hfield
    cases hfield
    rcases h.visible with ⟨c, hc, hspace⟩
    have hnul : NUL ∉ row.reading ++ ['\n'] := by
      intro hin
      rcases List.mem_append.mp hin with htext | hend
      · exact (row.clean row.reading (by simp)).right.right htext
      · exact absurd (List.mem_singleton.mp hend) (by decide)
    refine ⟨c, ?_, hspace⟩
    have hwhole : cstr (row.reading ++ ['\n']) = row.reading ++ ['\n'] := by
      unfold cstr
      rw [List.takeWhile_eq_self_iff]
      intro d hd
      rw [bne_iff_ne]
      rintro rfl
      exact hnul hd
    rw [hwhole]
    exact List.mem_append_left _ hc
  case range =>
    intro n hn
    rw [row.numberOf_line word] at hn
    exact h.range n hn
  case label =>
    intro _
    left
    rw [hfirst]
    exact h.name

end SdrRow

/-!
# Both files
-/

section Files

variable {word : List Char} {plus : Nat} {rows : List SdrRow}

theorem sdrLines_short (h : forall row, row ∈ rows -> row.Fits word plus) :
    textLines (streamOf (rows.map (SdrRow.line word))) =
        rows.map (fun row => lineOf (row.line word)) ∧
      forall line, line ∈ textLines (streamOf (rows.map (SdrRow.line word))) ->
        line.length < BUFSIZ := by
  have hbodies : forall body, body ∈ rows.map (SdrRow.line word) -> '\n' ∉ body := by
    intro body hbody
    rcases List.mem_map.mp hbody with ⟨row, _, rfl⟩
    exact row.line_noNewline word
  rw [textLines_streamOf hbodies, List.map_map]
  refine ⟨rfl, ?_⟩
  intro line hline
  rcases List.mem_map.mp hline with ⟨row, hrow, rfl⟩
  show (lineOf (row.line word)).length < BUFSIZ
  unfold lineOf
  rw [List.length_append]
  exact (h row hrow).short

def sdrFile (h : forall row, row ∈ rows -> row.Fits word plus) : SensorFile where
  content := streamOf (rows.map (SdrRow.line word))
  short := (sdrLines_short h).right

theorem sdrFile_lines (h : forall row, row ∈ rows -> row.Fits word plus) :
    linesOf (some (sdrFile h)) = rows.map (fun row => lineOf (row.line word)) :=
  (sdrLines_short h).left

theorem sdrFile_readings (h : forall row, row ∈ rows -> row.Fits word plus)
    (max : Nat) :
    ownReadings plus max (some (sdrFile h)) =
      (rows.filterMap (SdrRow.entry word plus)).take max := by
  have hentry : sensorOf plus ∘ (fun row => lineOf (SdrRow.line word row)) =
      SdrRow.entry word plus := funext fun row => row.sensorOf_line word plus
  unfold ownReadings
  rw [sdrFile_lines h, List.filterMap_map, hentry]

theorem sdrFile_fits (h : forall row, row ∈ rows -> row.Fits word plus)
    {step : SensorVars -> List Char -> Option SensorVars} (s : SensorVars)
    (max : Nat) :
    StepsMeet step s (linesOf (some (sdrFile h))) (StepFits plus max) := by
  intro pre line post t hlines _ _
  have hline : line ∈ linesOf (some (sdrFile h)) := by
    rw [hlines]
    simp
  rw [sdrFile_lines h] at hline
  rcases List.mem_map.mp hline with ⟨row, hrow, rfl⟩
  exact (h row hrow).line_fits t.buf

end Files

/-- From the rows of `ipmitool` to the tables of `breakin`: every sensor with a number
has its entry, in order, with its own name and its own number, as many as there is
room for, and no other sensor has one. -/
theorem sensors_shown (m : SensorMemory) {temperatures fans : List SdrRow}
    (htemps : forall row, row ∈ temperatures -> row.Fits "Temperature".toList 0)
    (hfans : forall row, row ∈ fans -> row.Fits "Fan".toList 3) :
    exists r,
      getIpmiSensors
          (some (IpmiRound.tempText ⟨sdrOutput temperatures, sdrOutput fans⟩))
          (some (IpmiRound.fanText ⟨sdrOutput temperatures, sdrOutput fans⟩))
          m.toSensorCells = some r ∧
        readings r.tempQty r.tempData =
          (temperatures.filterMap (SdrRow.entry "Temperature".toList 0)).take
            MAX_TEMPS ∧
        readings r.fanQty r.fanData =
          (fans.filterMap (SdrRow.entry "Fan".toList 3)).take MAX_FANS := by
  have htempText : IpmiRound.tempText ⟨sdrOutput temperatures, sdrOutput fans⟩ =
      (sdrFile htemps).content :=
    sdrText_rows (by decide) fun row hrow => (htemps row hrow).bare
  have hfanText : IpmiRound.fanText ⟨sdrOutput temperatures, sdrOutput fans⟩ =
      (sdrFile hfans).content :=
    sdrText_rows (by decide) fun row hrow => (hfans row hrow).bare
  rcases getIpmiSensors_runs m (some (sdrFile htemps).content)
      (some (sdrFile hfans).content) with ⟨t, f, htrun, hfrun, _, _, hcall⟩
  have hown : ReadsOwn m.toSensorCells (some (sdrFile htemps)) (some (sdrFile hfans)) :=
    (readsOwn_iff m _ _).mpr
      ⟨sdrFile_fits htemps _ MAX_TEMPS, fun t _ => sdrFile_fits hfans _ MAX_FANS⟩
  have htempLines := linesRead_eq (some (sdrFile htemps))
  have hfanLines := linesRead_eq (some (sdrFile hfans))
  rw [Option.map_some] at htempLines hfanLines
  rw [htempLines] at htrun
  rw [hfanLines] at hfrun
  rw [htempText, hfanText]
  refine ⟨_, hcall, ?_, ?_⟩
  · rw [← sdrFile_readings htemps]
    exact hown.temps _ [] t (List.append_nil _).symm htrun
  · rw [← sdrFile_readings hfans]
    exact hown.fans t htrun _ [] f (List.append_nil _).symm hfrun

def cpuRow : SdrRow where
  name := "CPU Temperature  ".toList
  id := " 01h ".toList
  status := " ok  ".toList
  entity := "  3.1 ".toList
  reading := " 41 degrees C".toList
  clean := by decide

def fanRow : SdrRow where
  name := "Fan 1 Tach       ".toList
  id := " 30h ".toList
  status := " ns  ".toList
  entity := " 29.1 ".toList
  reading := " No Reading".toList
  clean := by decide

theorem cpuRow_fits : cpuRow.Fits "Temperature".toList 0 where
  bare := fun h =>
    absurd (h.subset (show 'T' ∈ "Temperature".toList by decide)) (by decide)
  visible := ⟨'4', by decide, by decide⟩
  range := by
    intro n hn
    have h41 : integerAt (cpuRow.reading.dropWhile isSpace) = some 41 := by decide
    rw [h41] at hn
    cases hn
    decide
  name := by decide
  short := by decide

theorem fanRow_fits : fanRow.Fits "Fan".toList 3 where
  bare := fun h => absurd (h.subset (show 'F' ∈ "Fan".toList by decide)) (by decide)
  visible := ⟨'N', by decide, by decide⟩
  range := by
    intro n hn
    have hnone : integerAt (fanRow.reading.dropWhile isSpace) = none := by decide
    rw [hnone] at hn
    cases hn
  name := by decide
  short := by decide

theorem sensors_shown_cpu :
    exists r,
      getIpmiSensors (some (IpmiRound.tempText ⟨sdrOutput [cpuRow], sdrOutput [fanRow]⟩))
          (some (IpmiRound.fanText ⟨sdrOutput [cpuRow], sdrOutput [fanRow]⟩))
          clearMemory.toSensorCells = some r ∧
        readings r.tempQty r.tempData =
          ([cpuRow].filterMap (SdrRow.entry "Temperature".toList 0)).take MAX_TEMPS ∧
        readings r.fanQty r.fanData =
          ([fanRow].filterMap (SdrRow.entry "Fan".toList 3)).take MAX_FANS := by
  have htemps : forall row, row ∈ [cpuRow] -> row.Fits "Temperature".toList 0 := by
    intro row hrow
    rw [List.mem_singleton.mp hrow]
    exact cpuRow_fits
  have hfans : forall row, row ∈ [fanRow] -> row.Fits "Fan".toList 3 := by
    intro row hrow
    rw [List.mem_singleton.mp hrow]
    exact fanRow_fits
  exact sensors_shown clearMemory htemps hfans

end Scripts
end Breakin
