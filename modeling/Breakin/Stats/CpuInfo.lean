import Breakin.Stats.DumpStats
import Breakin.Stats.Sensors

/-!
# The processors

`get_cpu_info` counts the processors that the kernel lists and takes the model and
the speed of the last one.
-/

namespace Breakin
namespace Stats

open Foundation
open Scheduler
open Util

structure CpuVars where
  buf : List Char
  cpucount : Nat
  info : CpuInfo

/-- `strstr(buf, ":")`, as an index. -/
def colonAt (s : CString) : Option Nat :=
  s.idxOf? ':'

/-- A turn of the loop over the lines; without a colon in a line that needs one it
reads at address 2.  `atof` is the conversion of the library. -/
def cpuLine (atof : CString -> Double) (s : CpuVars) (line : List Char) :
    Option CpuVars :=
  let buf := fgetsInto s.buf line
  if startsWith "processor".toList (cstr buf) then
    some { s with buf := buf, cpucount := s.cpucount + 1 }
  else if startsWith "model name".toList (cstr buf) then do
    let colon ← colonAt (cstr buf)
    let trimmed ← trimAt buf (colon + 2)
    some
      { s with
        buf := trimmed
        info := { s.info with model := cstr (trimmed.drop (colon + 2)) } }
  else if startsWith "cpu MHz".toList (cstr buf) then do
    let colon ← colonAt (cstr buf)
    some
      { s with
        buf := buf
        info := { s.info with speed := atof (cstr (buf.drop (colon + 2))) } }
  else
    some { s with buf := buf }

/-- `buf` is what the uninitialised buffer holds. -/
def getCpuInfo (atof : CString -> Double) (file : Option (List Char))
    (buf : List Char) (info : CpuInfo) : Option CpuInfo :=
  match file with
  | none => some info
  | some content => do
      let s ← runFrom (cpuLine atof) { buf := buf, cpucount := 0, info := info }
        (linesRead (some content))
      some { s.info with qty := s.cpucount }

/-!
# What the lines say
-/

def valueText (line : List Char) : List Char :=
  (line.dropWhile fun c => c != ':').drop 2

def isModel (line : List Char) : Bool :=
  startsWith "model name".toList line

def isSpeed (line : List Char) : Bool :=
  startsWith "cpu MHz".toList line

def isProcessor (line : List Char) : Bool :=
  startsWith "processor".toList line

def lastOf (kind : List Char -> Bool) (lines : List (List Char)) :
    Option (List Char) :=
  (lines.filter kind).getLast?

def described (atof : CString -> Double) (lines : List (List Char))
    (old : CpuInfo) : CpuInfo where
  qty := lines.countP isProcessor
  model := ((lastOf isModel lines).map fun line => trim (valueText line)).getD
    old.model
  speed := ((lastOf isSpeed lines).map fun line => atof (valueText line)).getD
    old.speed

structure ListedLine (line : List Char) : Prop where
  text : NUL ∉ line
  fits : line.length < BUFSIZ
  value : isModel line = true ∨ isSpeed line = true ->
    exists front c rest, ':' ∉ front ∧ line = front ++ ':' :: c :: rest

/-!
# One line
-/

theorem drop_rdropWhile_append {p : Char -> Bool} (x y : List Char) :
    ((x ++ y).rdropWhile p).drop x.length = y.rdropWhile p := by
  by_cases hall : forall c, c ∈ y -> p c = true
  · have hnil : y.rdropWhile p = [] := by
      rw [List.rdropWhile_eq_nil_iff]
      exact hall
    have hlen : ((x ++ y).rdropWhile p).length ≤ x.length := by
      unfold List.rdropWhile
      rw [List.reverse_append,
        List.dropWhile_append_of_pos fun c hc => hall c (List.mem_reverse.mp hc),
        List.length_reverse]
      have hle := (List.dropWhile_sublist (l := x.reverse) p).length_le
      rwa [List.length_reverse] at hle
    rw [hnil, List.drop_eq_nil_of_le hlen]
  · push Not at hall
    rcases hall with ⟨c, hc, hnot⟩
    rw [rdropWhile_append_of_mem x hc (by simpa using hnot), List.drop_left]

theorem cstr_trimAt {s : List Char} (hs : NUL ∉ s) {left : List Char}
    (hleft : NUL ∉ left) (rest : List Char) :
    exists cells, trimAt (left ++ (s ++ NUL :: rest)) left.length = some cells ∧
      cells.length = (left ++ (s ++ NUL :: rest)).length ∧
        cstr (cells.drop left.length) = trim s := by
  have hbody : NUL ∉ left ++ s.dropWhile isBlank := by
    rw [List.mem_append, not_or]
    exact ⟨hleft, fun hin => hs ((List.dropWhile_sublist isBlank).subset hin)⟩
  have hle := (List.dropWhile_sublist (l := s) isBlank).length_le
  refine ⟨_, trimAt_eq hs left rest, ?_, ?_⟩
  · simp only [List.length_append, List.length_cons, List.length_drop,
      blankTail_length]
    omega
  · rw [cstr_drop_blankTail hbody (by simp), drop_rdropWhile_append]
    rfl

theorem colonAt_append {front : List Char} (h : ':' ∉ front)
    (rest : List Char) : colonAt (front ++ ':' :: rest) = some front.length := by
  unfold colonAt
  rw [List.idxOf?_eq_some_iff]
  refine ⟨by simp, by simp, ?_⟩
  intro j hj
  rw [List.getElem_append_left hj]
  exact fun heq => h (heq ▸ List.getElem_mem hj)

theorem valueText_append {front : List Char} (h : ':' ∉ front) (c : Char)
    (rest : List Char) : valueText (front ++ ':' :: c :: rest) = rest := by
  unfold valueText
  rw [List.dropWhile_append_of_pos, List.dropWhile_cons_of_neg (by simp)]
  · rfl
  · intro d hd
    rw [bne_iff_ne]
    exact fun heq => h (heq ▸ hd)

theorem head_of_startsWith {c : Char} {word line : List Char}
    (h : startsWith (c :: word) line = true) : line.head? = some c := by
  unfold startsWith at h
  rw [beq_iff_eq] at h
  cases line with
  | nil => cases h
  | cons d rest => exact congrArg some (List.cons.inj h).left

theorem kinds_apart (line : List Char) :
    (isProcessor line = true -> isModel line = false ∧ isSpeed line = false) ∧
      (isModel line = true -> isSpeed line = false) := by
  have hheads : forall {kind other : List Char -> Bool} {c d : Char},
      (kind line = true -> line.head? = some c) ->
        (other line = true -> line.head? = some d) -> c ≠ d ->
          kind line = true -> other line = false := by
    intro kind other c d hc hd hne hkind
    cases hother : other line with
    | false => rfl
    | true =>
        have heq := (hc hkind).symm.trans (hd hother)
        exact absurd (Option.some.inj heq) hne
  have hp : isProcessor line = true -> line.head? = some 'p' :=
    head_of_startsWith
  have hm : isModel line = true -> line.head? = some 'm' := head_of_startsWith
  have hs : isSpeed line = true -> line.head? = some 'c' := head_of_startsWith
  exact ⟨fun h => ⟨hheads hp hm (by decide) h, hheads hp hs (by decide) h⟩,
    hheads hm hs (by decide)⟩

theorem ListedLine.split {line : List Char} (h : ListedLine line)
    (hkind : isModel line = true ∨ isSpeed line = true) :
    exists left n, NUL ∉ left ∧ NUL ∉ valueText line ∧
      line = left ++ valueText line ∧ colonAt line = some n ∧
        left.length = n + 2 := by
  rcases h.value hkind with ⟨front, c, rest, hfront, hsplit⟩
  have htext := h.text
  rw [hsplit] at htext ⊢
  rw [valueText_append hfront, colonAt_append hfront]
  rw [List.mem_append, List.mem_cons, List.mem_cons, not_or, not_or,
    not_or] at htext
  rcases htext with ⟨hnul, hcolon, hc, hrest⟩
  refine ⟨front ++ [':', c], front.length, ?_, hrest, by simp, rfl, by simp⟩
  rw [List.mem_append, List.mem_cons, List.mem_singleton, not_or, not_or]
  exact ⟨hnul, hcolon, hc⟩

theorem ListedLine.model {line : List Char} (h : ListedLine line)
    (hkind : isModel line = true) (buf : List Char) :
    exists n cells, colonAt line = some n ∧
      trimAt (fgetsInto buf line) (n + 2) = some cells ∧
      cells.length = (fgetsInto buf line).length ∧
      cstr (cells.drop (n + 2)) = trim (valueText line) := by
  rcases h.split (Or.inl hkind) with
    ⟨left, n, hleft, hvalue, hsplit, hcolon, hlen⟩
  have hcells : fgetsInto buf line =
      left ++ (valueText line ++ NUL :: buf.drop (line.length + 1)) := by
    unfold fgetsInto
    rw [← List.append_assoc, ← hsplit]
  rcases cstr_trimAt hvalue hleft (buf.drop (line.length + 1)) with
    ⟨cells, htrim, hcount, htext⟩
  rw [← hcells, hlen] at htrim
  rw [← hcells] at hcount
  rw [hlen] at htext
  exact ⟨n, cells, hcolon, htrim, hcount, htext⟩

theorem ListedLine.speed {line : List Char} (h : ListedLine line)
    (hkind : isSpeed line = true) (buf : List Char) :
    exists n, colonAt line = some n ∧
      cstr ((fgetsInto buf line).drop (n + 2)) = valueText line := by
  rcases h.split (Or.inr hkind) with
    ⟨left, n, _, hvalue, hsplit, hcolon, hlen⟩
  have hcells : fgetsInto buf line =
      left ++ (valueText line ++ NUL :: buf.drop (line.length + 1)) := by
    unfold fgetsInto
    rw [← List.append_assoc, ← hsplit]
  refine ⟨n, hcolon, ?_⟩
  rw [hcells, ← hlen, List.drop_left, cstr_append_nul hvalue]

def noted (atof : CString -> Double) (info : CpuInfo) (line : List Char) :
    CpuInfo :=
  { info with
    model := if isModel line then trim (valueText line) else info.model
    speed := if isSpeed line then atof (valueText line) else info.speed }

theorem cpuLine_eq (atof : CString -> Double) {s : CpuVars} {line : List Char}
    (h : ListedLine line) (hbuf : s.buf.length = BUFSIZ) :
    exists buf, cpuLine atof s line = some
      { buf := buf
        cpucount := s.cpucount + if isProcessor line then 1 else 0
        info := noted atof s.info line } ∧ buf.length = BUFSIZ := by
  have hline : cstr (fgetsInto s.buf line) = line := cstr_append_nul h.text _
  have hlen : (fgetsInto s.buf line).length = BUFSIZ := by
    rw [fgetsInto_length (by rw [hbuf]; exact h.fits), hbuf]
  rcases kinds_apart line with ⟨hprocessor, hmodel⟩
  unfold cpuLine noted
  dsimp only
  rw [hline]
  change exists buf, (if isProcessor line = true then _ else
    if isModel line = true then _ else if isSpeed line = true then _ else _) =
      _ ∧ _
  by_cases hp : isProcessor line = true
  · rcases hprocessor hp with ⟨hm, hs⟩
    exact ⟨fgetsInto s.buf line, by simp only [hp, hm, hs]; rfl, hlen⟩
  · by_cases hm : isModel line = true
    · rcases h.model hm s.buf with ⟨n, cells, hcolon, htrim, hcount, htext⟩
      have hs := hmodel hm
      refine ⟨cells, ?_, hcount.trans hlen⟩
      simp only [hp, hm, hs, hcolon, Option.bind_eq_bind, Option.bind_some,
        htrim, htext]
      rfl
    · by_cases hs : isSpeed line = true
      · rcases h.speed hs s.buf with ⟨n, hcolon, htext⟩
        refine ⟨fgetsInto s.buf line, ?_, hlen⟩
        simp only [hp, hm, hs, hcolon, Option.bind_eq_bind, Option.bind_some,
          htext]
        rfl
      · refine ⟨fgetsInto s.buf line, ?_, hlen⟩
        simp only [hp, hm, hs]
        rfl

/-!
# The whole file
-/

theorem lastOf_snoc (kind : List Char -> Bool) (lines : List (List Char))
    (line : List Char) :
    lastOf kind (lines ++ [line]) =
      if kind line then some line else lastOf kind lines := by
  unfold lastOf
  rw [List.filter_append]
  by_cases hkind : kind line = true
  · rw [if_pos hkind, List.filter_cons_of_pos hkind, List.filter_nil,
      List.getLast?_concat]
  · rw [if_neg hkind, List.filter_cons_of_neg hkind, List.filter_nil,
      List.append_nil]

theorem described_snoc (atof : CString -> Double) (lines : List (List Char))
    (line : List Char) (old : CpuInfo) :
    described atof (lines ++ [line]) old =
      { noted atof (described atof lines old) line with
        qty := (described atof lines old).qty +
          if isProcessor line then 1 else 0 } := by
  unfold described noted
  dsimp only
  rw [lastOf_snoc, lastOf_snoc, List.countP_append, List.countP_singleton]
  congr 1
  · split <;> simp
  · split <;> rfl
  · split <;> rfl

theorem cpuLines_described (atof : CString -> Double) {lines : List (List Char)}
    (h : forall line, line ∈ lines -> ListedLine line) {buf : List Char}
    (hbuf : buf.length = BUFSIZ) (old : CpuInfo) :
    exists s, runFrom (cpuLine atof) { buf := buf, cpucount := 0, info := old }
        lines = some s ∧ s.buf.length = BUFSIZ ∧
      { s.info with qty := s.cpucount } = described atof lines old := by
  induction lines using List.reverseRecOn with
  | nil => exact ⟨_, rfl, hbuf, rfl⟩
  | append_singleton lines line ih =>
      rw [List.forall_mem_append, List.forall_mem_singleton] at h
      rcases ih h.left with ⟨s, hrun, hlen, hinfo⟩
      rcases cpuLine_eq atof h.right hlen with ⟨cells, hstep, hcells⟩
      refine ⟨_, runFrom_snoc.mpr ⟨s, hrun, hstep⟩, hcells, ?_⟩
      rw [described_snoc, ← hinfo]
      dsimp only [noted]
      push_cast
      split <;> rfl

/-- From what the kernel lists, `get_cpu_info` takes the number of its processors,
and the model and the speed of the last line that gives one. -/
theorem getCpuInfo_described (atof : CString -> Double) {content : List Char}
    (h : forall line, line ∈ linesRead (some content) -> NUL ∉ line ∧
      (isModel line = true ∨ isSpeed line = true ->
        exists front c rest, ':' ∉ front ∧ line = front ++ ':' :: c :: rest))
    {buf : List Char} (hbuf : buf.length = BUFSIZ) (old : CpuInfo) :
    getCpuInfo atof (some content) buf old =
      some (described atof (linesRead (some content)) old) := by
  have hlines : forall line, line ∈ linesRead (some content) ->
      ListedLine line := fun line hline =>
    ⟨(h line hline).left, linesRead_short hline, (h line hline).right⟩
  rcases cpuLines_described atof hlines hbuf old with ⟨s, hrun, _, hinfo⟩
  unfold getCpuInfo
  simp only [Option.bind_eq_bind, hrun, Option.bind_some, hinfo]

/-!
# The number of processors
-/

def twoProcessors : List Char :=
  "processor\t: 0\nmodel name\t: Xeon \nprocessor\t: 1\n".toList

theorem getCpuInfo_twoProcessors :
    linesRead (some twoProcessors) =
        ["processor\t: 0\n".toList, "model name\t: Xeon \n".toList,
          "processor\t: 1\n".toList] ∧
      getCpuInfo (fun _ => Double.zero) (some twoProcessors)
          (List.replicate BUFSIZ NUL)
          { qty := 0, model := [], speed := Double.zero } =
        some (described (fun _ => Double.zero)
          (linesRead (some twoProcessors))
          { qty := 0, model := [], speed := Double.zero }) := by
  have hlines : linesRead (some twoProcessors) =
      ["processor\t: 0\n".toList, "model name\t: Xeon \n".toList,
        "processor\t: 1\n".toList] := by decide
  refine ⟨hlines, getCpuInfo_described _ ?_ List.length_replicate _⟩
  rw [hlines]
  simp only [List.forall_mem_cons, List.not_mem_nil, false_implies,
    implies_true, and_true]
  refine ⟨⟨by decide, fun hkind => absurd hkind (by decide)⟩,
    ⟨by decide, fun _ => ⟨"model name\t".toList, ' ', "Xeon \n".toList,
      by decide, by decide⟩⟩,
    ⟨by decide, fun hkind => absurd hkind (by decide)⟩⟩

end Stats
end Breakin
