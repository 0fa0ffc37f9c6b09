import Mathlib.Algebra.Order.Ring.Nat
import Mathlib.Data.Int.Order.Basic
import Breakin.Screen.Cells

/-!
# Rows of the stat window

`setup_screen` makes the window as high as a formula in the counts of sensors and
scripts says, and `draw_stat_window` counts the rows as it draws.
-/

namespace Breakin
namespace Screen

def STAT_MIN_ROWS : Nat := 10

def statHeight (tempQty fanQty burninScriptCount : Nat) : Int :=
  ((STAT_MIN_ROWS + tempQty / 3 + fanQty / 3 + burninScriptCount : Nat) : Int)

/-- Where the drawing of a sensor table stands: `linepos`, how many sensors have
been displayed, and the rows drawn on. -/
structure Pen where
  linepos : Int
  displayed : Nat
  rows : List Int

namespace Pen

/-- Text at the cursor, which is on row `linepos`. -/
def print (p : Pen) : Pen :=
  { p with rows := p.rows ++ [p.linepos] }

/-- `linepos ++;`, with text at the beginning of that row. -/
def nextRow (p : Pen) : Pen :=
  { p with
    linepos := p.linepos + 1
    rows := p.rows ++ [p.linepos + 1] }

def sensor (p : Pen) : Pen :=
  let printed := p.print
  let p' := { printed with displayed := p.displayed + 1 }
  if p'.displayed % 3 = 0 then p'.nextRow else p'

end Pen

def drawSensors {reading : Type} (shown : reading -> Bool)
    (table : List reading) (p : Pen) : Pen :=
  let drawn := table.foldl (fun p r => if shown r then p.sensor else p) p
  if table.length = 0 then drawn.print else drawn

/-- The rows that `draw_graph` draws on. -/
def graphRows (y : Int) : List Int :=
  [y, y, y, y, y, y]

def testRows (burninStart : Int) (burninScriptCount : Nat) : List Int :=
  (List.range burninScriptCount).map fun i : Nat => burninStart + 2 + (i : Int)

/-- The title, its line, the two graphs and the word `Temps`. -/
def topPen : Pen where
  linepos := 4
  displayed := 0
  rows := [0, 1] ++ graphRows 2 ++ graphRows 3 ++ [4]

/-- The rows of the window that `draw_stat_window` draws on, in its order. -/
def statRows (temps : List TempReading) (fans : List FanReading)
    (burninScriptCount : Nat) : List Int :=
  let tempPen := drawSensors TempReading.shown temps topPen
  let fanPen := drawSensors FanReading.shown fans
    { tempPen.nextRow with displayed := 0 }
  let linepos := fanPen.linepos
  let burninStart := linepos + 3
  fanPen.rows ++ [linepos + 2] ++
    [burninStart, burninStart, burninStart, burninStart] ++
      [burninStart + 1, burninStart + burninScriptCount + 2] ++
        testRows burninStart burninScriptCount

/-- Nothing is drawn outside a window set up for `tempQty` temperatures and
`fanQty` fans. -/
def RowsInside (tempQty fanQty burninScriptCount : Nat)
    (temps : List TempReading) (fans : List FanReading) : Prop :=
  forall row, row ∈ statRows temps fans burninScriptCount ->
    0 ≤ row ∧ row < statHeight tempQty fanQty burninScriptCount

/-!
# The pen

It has moved on by a row for every three sensors, and drawn on no row behind its
own.
-/

/-- The pen started on row `start` and has not drawn outside the rows from 0 to
its own. -/
structure Pen.Moved (start : Int) (p : Pen) : Prop where
  linepos : p.linepos = start + (p.displayed / 3 : Nat)
  nonneg : 0 ≤ p.linepos
  rows : forall row, row ∈ p.rows -> 0 ≤ row ∧ row ≤ p.linepos

theorem Pen.Moved.print {start : Int} {p : Pen} (h : p.Moved start) :
    p.print.Moved start := by
  refine ⟨h.linepos, h.nonneg, ?_⟩
  intro row hrow
  rcases List.mem_append.mp hrow with hold | hnew
  · exact h.rows row hold
  · rw [List.mem_singleton.mp hnew]
    exact ⟨h.nonneg, le_refl _⟩

theorem Pen.rows_nextRow {p : Pen} (hnonneg : 0 ≤ p.linepos)
    (hrows : forall row, row ∈ p.rows -> 0 ≤ row ∧ row ≤ p.linepos) :
    forall row, row ∈ p.nextRow.rows -> 0 ≤ row ∧ row ≤ p.nextRow.linepos := by
  intro row hrow
  show 0 ≤ row ∧ row ≤ p.linepos + 1
  rcases List.mem_append.mp hrow with hold | hnew
  · have hbounds := hrows row hold
    omega
  · rw [List.mem_singleton.mp hnew]
    omega

theorem Pen.Moved.sensor {start : Int} {p : Pen} (h : p.Moved start) :
    p.sensor.Moved start ∧ p.sensor.displayed = p.displayed + 1 := by
  have hlinepos := h.linepos
  have hnonneg := h.nonneg
  have hprint := h.print
  unfold Pen.sensor
  by_cases hthird : (p.displayed + 1) % 3 = 0
  · have hdiv : (p.displayed + 1) / 3 = p.displayed / 3 + 1 := by omega
    simp only [if_pos hthird]
    refine ⟨⟨?_, ?_, Pen.rows_nextRow hprint.nonneg hprint.rows⟩, rfl⟩
    · show p.linepos + 1 = start + ((p.displayed + 1) / 3 : Nat)
      rw [hdiv, hlinepos]
      push_cast
      exact add_assoc _ _ _
    · show 0 ≤ p.linepos + 1
      omega
  · have hdiv : (p.displayed + 1) / 3 = p.displayed / 3 := by omega
    simp only [if_neg hthird]
    refine ⟨⟨?_, hnonneg, hprint.rows⟩, trivial⟩
    show p.linepos = start + ((p.displayed + 1) / 3 : Nat)
    rw [hdiv, hlinepos]

theorem Pen.Moved.sensors {reading : Type} {shown : reading -> Bool}
    {table : List reading} {start : Int} {p : Pen} (h : p.Moved start) :
    (table.foldl (fun p r => if shown r then p.sensor else p) p).Moved start ∧
      (table.foldl (fun p r => if shown r then p.sensor else p) p).displayed =
        p.displayed + table.countP shown := by
  induction table generalizing p with
  | nil => exact ⟨h, rfl⟩
  | cons r rest ih =>
      rw [List.foldl_cons, List.countP_cons]
      cases shown r with
      | false => exact ih h
      | true =>
          have hsensor := h.sensor
          have hrest := ih hsensor.left
          rw [hsensor.right] at hrest
          refine ⟨hrest.left, ?_⟩
          rw [if_pos rfl, if_pos rfl, hrest.right]
          omega

theorem drawSensors_moved {reading : Type} (shown : reading -> Bool)
    (table : List reading) {start : Int} {p : Pen} (h : p.Moved start)
    (hp : p.displayed = 0) :
    (drawSensors shown table p).Moved start ∧
      (drawSensors shown table p).displayed = table.countP shown := by
  have hdrawn := @Pen.Moved.sensors _ shown table _ _ h
  rw [hp, Nat.zero_add] at hdrawn
  unfold drawSensors
  by_cases hempty : table.length = 0
  · simp only [if_pos hempty]
    exact ⟨hdrawn.left.print, hdrawn.right⟩
  · simp only [if_neg hempty]
    exact hdrawn

/-!
# The rows
-/

def closingRow (temps : List TempReading) (fans : List FanReading)
    (burninScriptCount : Nat) : Int :=
  ((10 + temps.countP TempReading.shown / 3 +
    fans.countP FanReading.shown / 3 + burninScriptCount : Nat) : Int)

theorem topPen_moved : topPen.Moved 4 :=
  ⟨by decide, by decide, by decide⟩

def sensorPen (temps : List TempReading) (fans : List FanReading) : Pen :=
  drawSensors FanReading.shown fans
    { (drawSensors TempReading.shown temps topPen).nextRow with displayed := 0 }

theorem statRows_eq (temps : List TempReading) (fans : List FanReading)
    (burninScriptCount : Nat) :
    statRows temps fans burninScriptCount =
      let p := sensorPen temps fans
      p.rows ++ [p.linepos + 2] ++
        [p.linepos + 3, p.linepos + 3, p.linepos + 3, p.linepos + 3] ++
          [p.linepos + 3 + 1, p.linepos + 3 + burninScriptCount + 2] ++
            testRows (p.linepos + 3) burninScriptCount := rfl

theorem sensorPen_moved (temps : List TempReading) (fans : List FanReading) :
    (sensorPen temps fans).linepos + 5 = closingRow temps fans 0 ∧
      0 ≤ (sensorPen temps fans).linepos ∧
        forall row, row ∈ (sensorPen temps fans).rows ->
          0 ≤ row ∧ row ≤ (sensorPen temps fans).linepos := by
  rcases drawSensors_moved TempReading.shown temps topPen_moved rfl
    with ⟨htemps, htempCount⟩
  let tempPen := drawSensors TempReading.shown temps topPen
  have htempPos : tempPen.linepos = 4 + (tempPen.displayed / 3 : Nat) :=
    htemps.linepos
  have hfanTop : Pen.Moved (tempPen.linepos + 1)
      { tempPen.nextRow with displayed := 0 } := by
    refine ⟨?_, ?_, Pen.rows_nextRow htemps.nonneg htemps.rows⟩
    · show tempPen.linepos + 1 = tempPen.linepos + 1 + ((0 / 3 : Nat) : Int)
      simp
    · show 0 ≤ tempPen.linepos + 1
      have hnonneg : 0 ≤ tempPen.linepos := htemps.nonneg
      omega
  rcases drawSensors_moved FanReading.shown fans hfanTop rfl
    with ⟨hfans, hfanCount⟩
  refine ⟨?_, hfans.nonneg, hfans.rows⟩
  have hfanPos : (sensorPen temps fans).linepos = _ := hfans.linepos
  rw [hfanPos, htempPos, hfanCount, htempCount, closingRow]
  push_cast
  omega

theorem closingRow_eq (temps : List TempReading) (fans : List FanReading)
    (burninScriptCount : Nat) :
    closingRow temps fans burninScriptCount =
      closingRow temps fans 0 + burninScriptCount := by
  simp [closingRow]

/-- No row is drawn on behind that of the closing line. -/
theorem statRows_bounds (temps : List TempReading) (fans : List FanReading)
    (burninScriptCount : Nat) :
    closingRow temps fans burninScriptCount ∈
        statRows temps fans burninScriptCount ∧
      forall row, row ∈ statRows temps fans burninScriptCount ->
        0 ≤ row ∧ row ≤ closingRow temps fans burninScriptCount := by
  rcases sensorPen_moved temps fans with ⟨hclosing, hnonneg, hrows⟩
  rw [statRows_eq, closingRow_eq, ← hclosing]
  generalize sensorPen temps fans = p at hnonneg hrows
  have hsum : p.linepos + 5 + (burninScriptCount : Int) =
      p.linepos + 3 + burninScriptCount + 2 := by omega
  rw [hsum]
  constructor
  · simp
  · intro row hrow
    rcases List.mem_append.mp hrow with hlines | htests
    · simp only [List.mem_append, List.mem_cons, List.not_mem_nil,
        or_false] at hlines
      rcases hlines with ((hpen | hline) | htitle) | hend
      · have hbounds := hrows row hpen
        omega
      all_goals omega
    · rcases List.mem_map.mp htests with ⟨i, hi, heq⟩
      have hi := List.mem_range.mp hi
      omega

/-- Everything is inside exactly when the sensors displayed fill fewer rows of
three than those counted when the window was set up. -/
theorem rowsInside_iff (tempQty fanQty burninScriptCount : Nat)
    (temps : List TempReading) (fans : List FanReading) :
    RowsInside tempQty fanQty burninScriptCount temps fans <->
      temps.countP TempReading.shown / 3 + fans.countP FanReading.shown / 3 <
        tempQty / 3 + fanQty / 3 := by
  have hbounds := statRows_bounds temps fans burninScriptCount
  have hheight : closingRow temps fans burninScriptCount <
        statHeight tempQty fanQty burninScriptCount <->
      temps.countP TempReading.shown / 3 + fans.countP FanReading.shown / 3 <
        tempQty / 3 + fanQty / 3 := by
    unfold closingRow statHeight STAT_MIN_ROWS
    rw [Int.ofNat_lt]
    omega
  rw [← hheight]
  constructor
  · intro h
    exact (h _ hbounds.left).right
  · intro h row hrow
    have hrow' := hbounds.right row hrow
    exact ⟨hrow'.left, lt_of_le_of_lt hrow'.right h⟩

/-- A machine without sensors, and with one test. -/
theorem noSensors_outside : ¬ RowsInside 0 0 1 [] [] := by
  intro h
  exact absurd (h 11 (by decide)).right (by decide)

end Screen
end Breakin
