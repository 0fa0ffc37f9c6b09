import Breakin.Scheduler.LogFile
import Breakin.Stats.DumpStats

/-!
# The log of the machine

`LOG_DEV_FILE` and the serial port hold a header, the records of the log and, every
few seconds, the state of the tests.  The latter is written by a thread of its own,
one `fprintf` after the other, and the records come in between.
-/

namespace Breakin
namespace Scheduler

open Foundation
open Stats
open Util

/-- What a call writes to `logdev_file` and to `serial_file`. -/
def logdevText (runTime : Nat) : LogCall -> List Char
  | .message text => "MSG ".toList ++ runningTime runTime ++ ' ' :: text ++ "\n".toList
  | .error text => "ERR ".toList ++ runningTime runTime ++ ' ' :: text ++ "\n".toList
  | .print _ => []

def isPositive : Double -> Bool
  | .finite negative significand _ => !negative && significand != 0
  | .infinite negative => !negative
  | .nan _ => false

def megabytes (kilobytes : Int) : Double :=
  .finite (decide (kilobytes < 0)) kilobytes.natAbs (-10)

def headerDisk (d : DiskInfo) : List CString :=
  ["HDD  : ".toList, d.device ++ ':' :: printFixed 1 d.size ++ "GB ".toList] ++
    (if isPositive d.performance then
      ['(' :: printFixed 1 d.performance ++ " MB/s) ".toList]
    else []) ++
      ["\n".toList]

def headerNic (nic : NicData) : List CString :=
  ["NIC  : ".toList,
    nic.name ++ ' ' :: nic.ipaddr ++ " (".toList ++ nic.macaddr ++ ")\n".toList]

/-- What `header_logdev` writes before the benchmarks. -/
def headerMachine (t : Tables) : List CString :=
  [List.replicate 65 '=' ++ "\n".toList,
    "  New breakin test started\n".toList,
    List.replicate 65 '=' ++ "\n".toList,
    [],
    "Mobo : ".toList ++ t.dmiData.boardVendor ++ " - ".toList ++
      t.dmiData.boardProduct ++ "\n".toList,
    "BIOS : ".toList ++ t.dmiData.biosVersion ++ "\n".toList,
    "CPU  : ".toList ++ printInt t.cpuInfo.qty ++ " x ".toList ++ t.cpuInfo.model ++
      " (".toList ++ printFixed 0 t.cpuInfo.speed ++ " MHz)\n".toList,
    "RAM  : ".toList ++ printFixed 0 t.memInfo.memPercent ++ "% - ".toList ++
      printFixed 1 (megabytes (t.memInfo.memTotal - t.memInfo.memFree)) ++
        " MB / ".toList ++ printFixed 2 (megabytes t.memInfo.memTotal) ++
          " MB".toList]

/-- The calls of `fprintf` in `header_logdev`. -/
def headerLogdev (t : Tables) : List CString :=
  headerMachine t ++
    (if t.benchmarks.completed ≠ 0 then
      [" (".toList ++ printFixed 2 t.benchmarks.stream.triad ++ " MB/s)".toList]
    else []) ++
      ["\n".toList] ++
        t.diskInfo.flatMap headerDisk ++
          (if t.diskInfo.isEmpty then
            ["HDD  : No hard disk drives found\n".toList]
          else []) ++
            t.nicData.flatMap headerNic ++
              (if t.nicData.isEmpty then
                ["NIC  : No network cards found\n".toList]
              else []) ++
                ["\n".toList]

def updateTest (runTime : Nat) (script : BurninScript) : List CString :=
  [runningTime runTime ++ " : ".toList,
    "test:".toList ++ script.name ++ " ".toList,
    " pass:".toList ++ printInt script.passCount.toBitVec.toInt ++ " fail:".toList ++
      printInt script.failCount.toBitVec.toInt,
    " lastmsg:".toList ++ script.lastMsg,
    "\n".toList]

/-- The calls of `fprintf` in `update_logdev_write`. -/
def updateLogdevWrite (runTime : Nat) (temps : List TempData)
    (scripts : List BurninScript) : List CString :=
  [runningTime runTime ++ " : temps:".toList] ++
    (temps.filter fun temp => isPositive temp.value).map
      (fun temp => printFixed 1 temp.value ++ "C  ".toList) ++
      (if temps.isEmpty then ["Not supported".toList] else []) ++
        ["\n".toList] ++
          scripts.flatMap (updateTest runTime)

/-- One `fprintf`: a record of the log, or a part of something else. -/
inductive Written where
  | log (runTime : Nat) (call : LogCall)
  | part (text : CString)

def Written.text : Written -> List Char
  | .log runTime call => logdevText runTime call
  | .part text => text

def logdevFile (pieces : List Written) : List Char :=
  (pieces.map Written.text).flatten

def startsLine (start : Bool) (text : List Char) : Bool :=
  match text.getLast? with
  | none => start
  | some c => c == '\n'

/-- The records that were written where a line starts. -/
def recordsAtStart (start : Bool) : List Written -> List LogRecord
  | [] => []
  | .log runTime call :: rest =>
      (if start then (call.record runTime).toList else []) ++
        recordsAtStart (startsLine start (logdevText runTime call)) rest
  | .part text :: rest => recordsAtStart (startsLine start text) rest

/-!
# Parts of lines
-/

/-- No record begins with the text. -/
def Strange (text : CString) : Prop :=
  forall rest, readKind ((text ++ rest).take 4) = none

theorem Strange.append {text : CString} (h : Strange text) (more : CString) :
    Strange (text ++ more) := by
  intro rest
  rw [List.append_assoc]
  exact h (more ++ rest)

theorem Strange.readRecord {line : CString} (h : Strange line) :
    readRecord line = none := by
  have hkind : readKind (line.take 4) = none := by
    have hnil := h []
    rwa [List.append_nil] at hnil
  unfold Scheduler.readRecord
  rw [hkind]
  rfl

theorem strange_front {front : CString} (hlength : 4 ≤ front.length)
    (hkind : readKind (front.take 4) = none) (text : CString) :
    Strange (front ++ text) := by
  intro rest
  rw [List.append_assoc, List.take_append_of_le_length hlength]
  exact hkind

theorem strange_cons {c : Char} (hM : c ≠ 'M') (hE : c ≠ 'E') (text : CString) :
    Strange (c :: text) := by
  intro rest
  unfold readKind
  rw [List.cons_append, List.take_succ_cons, if_neg, if_neg]
  · intro heq
    exact hE (List.cons.inj heq).left
  · intro heq
    exact hM (List.cons.inj heq).left

def InLine (text : CString) : Prop :=
  '\n' ∉ text ∧ (text = [] ∨ Strange text)

def IsPart (text : CString) : Prop :=
  InLine text ∨ exists body, InLine body ∧ text = lineOf body

theorem InLine.append {text more : CString} (h : InLine text) (hmore : InLine more) :
    InLine (text ++ more) := by
  refine ⟨?_, ?_⟩
  · rw [List.mem_append, not_or]
    exact ⟨h.left, hmore.left⟩
  · rcases h.right with rfl | hstrange
    · exact hmore.right
    · exact Or.inr (hstrange.append more)

theorem InLine.readRecord {line : CString} (h : InLine line) : readRecord line = none := by
  rcases h.right with rfl | hstrange
  · rfl
  · exact hstrange.readRecord

theorem startsLine_lineOf (start : Bool) (body : CString) :
    startsLine start (lineOf body) = true := by
  unfold startsLine lineOf
  rw [List.getLast?_concat]
  rfl

theorem startsLine_inLine {text : CString} (h : InLine text) (cur : CString) :
    startsLine cur.isEmpty text = (cur ++ text).isEmpty := by
  rcases List.eq_nil_or_concat text with rfl | ⟨front, c, rfl⟩
  · rw [List.append_nil]
    rfl
  · have hc : (c == '\n') = false := by
      rw [beq_eq_false_iff_ne]
      rintro rfl
      exact h.left (by simp)
    have hsome : (cur ++ front.concat c).isEmpty = false := by
      simp
    unfold startsLine
    rw [hsome, List.concat_eq_append, List.getLast?_concat]
    exact hc

theorem recordsIn_inLine {line : CString} (h : InLine line) : recordsIn line = [] := by
  by_cases hne : line = []
  · rw [hne]
    rfl
  · have hwhole : line.takeWhile (fun c => c != '\n') = line := by
      rw [List.takeWhile_eq_self_iff]
      intro c hc
      rw [bne_iff_ne]
      rintro rfl
      exact h.left hc
    unfold recordsIn
    rw [textLines_unended h.left hne, List.filterMap_cons, hwhole, h.readRecord]
    rfl

/-!
# Records among the parts
-/

theorem recordsIn_behind {tag : List Char} {kind : RecordKind}
    (htag : readKind tag = some kind) (hlength : tag.length = 4)
    (hend : '\n' ∉ tag) {text : CString} (h : OneLine text) (runTime : Nat)
    {cur : CString} (hcur : InLine cur) (rest : List Char) :
    recordsIn (cur ++ (tag ++ runningTime runTime ++ ' ' :: text ++ ['\n'] ++ rest)) =
      (if cur.isEmpty then
        [{ kind := kind, time := runTime, text := chomp text }]
      else []) ++ recordsIn rest := by
  rcases hcur.right with rfl | hstrange
  · exact recordsIn_record htag hlength hend h runTime 0 rest
  · have hnonempty : cur.isEmpty = false := by
      cases cur with
      | nil => exact absurd (hstrange "MSG ".toList) (by decide)
      | cons c cur => rfl
    have hfront : cur ++ (tag ++ runningTime runTime ++ ' ' :: text ++ ['\n'] ++ rest) =
        cur ++ (tag ++ runningTime runTime ++ [' ']) ++ text ++
          List.replicate (0 + 1) '\n' ++ rest := by
      simp
    have hnewline : '\n' ∉ cur ++ (tag ++ runningTime runTime ++ [' ']) := by
      rw [List.mem_append, not_or]
      exact ⟨hcur.left, tagged_noNewline hend runTime⟩
    have hread : readRecord (cur ++ (tag ++ runningTime runTime ++ [' ']) ++ chomp text) =
        none :=
      ((hstrange.append _).append _).readRecord
    rw [hfront, recordsIn_text hnewline h, hread, hnonempty]
    rfl

def Written.Fits : Written -> Prop
  | .log _ call => call.OneLine
  | .part text => IsPart text

/-- What is read is what was written where a line starts.  The induction is on the
pieces, with what is in the last line so far. -/
theorem recordsIn_pieces {pieces : List Written} (h : forall p, p ∈ pieces -> p.Fits)
    {cur : CString} (hcur : InLine cur) :
    recordsIn (cur ++ logdevFile pieces) = recordsAtStart cur.isEmpty pieces := by
  have hempty : InLine [] := ⟨List.not_mem_nil, Or.inl rfl⟩
  induction pieces generalizing cur with
  | nil =>
      have hend : cur ++ logdevFile [] = cur := List.append_nil cur
      rw [hend, recordsIn_inLine hcur]
      rfl
  | cons p pieces ih =>
      rw [List.forall_mem_cons] at h
      have hsplit : logdevFile (p :: pieces) = p.text ++ logdevFile pieces := rfl
      rw [hsplit]
      cases p with
      | log runTime call =>
          have hline : call.OneLine := h.left
          -- behind a record a line starts
          have htagged : forall (tag : List Char) (kind : RecordKind) (text : CString),
              readKind tag = some kind -> tag.length = 4 -> '\n' ∉ tag -> OneLine text ->
              recordsIn (cur ++ (lineOf (tag ++ runningTime runTime ++ ' ' :: text) ++
                  logdevFile pieces)) =
                (if cur.isEmpty then
                  [{ kind := kind, time := runTime, text := chomp text }]
                else []) ++
                  recordsAtStart (startsLine cur.isEmpty
                    (lineOf (tag ++ runningTime runTime ++ ' ' :: text))) pieces := by
            intro tag kind text htag hlength hend htext
            have hnext : recordsIn (logdevFile pieces) = recordsAtStart true pieces :=
              ih h.right hempty
            rw [startsLine_lineOf, ← hnext]
            exact recordsIn_behind htag hlength hend htext runTime hcur _
          cases call with
          | message text => exact htagged "MSG ".toList .message text rfl rfl (by decide) hline
          | error text => exact htagged "ERR ".toList .error text rfl rfl (by decide) hline
          | print text =>
              show recordsIn (cur ++ logdevFile pieces) = _
              rw [ih h.right hcur]
              show _ = (if cur.isEmpty then [] else []) ++ recordsAtStart cur.isEmpty pieces
              rw [ite_self]
              rfl
      | part text =>
          rcases h.left with hin | ⟨body, hin, rfl⟩
          · show recordsIn (cur ++ (text ++ logdevFile pieces)) =
              recordsAtStart (startsLine cur.isEmpty text) pieces
            rw [← List.append_assoc, ih h.right (hcur.append hin), startsLine_inLine hin]
          · show recordsIn (cur ++ (lineOf body ++ logdevFile pieces)) =
              recordsAtStart (startsLine cur.isEmpty (lineOf body)) pieces
            have hline := hcur.append hin
            have hsplit : cur ++ (lineOf body ++ logdevFile pieces) =
                cur ++ body ++ '\n' :: logdevFile pieces := by
              simp [lineOf]
            have hnext : recordsIn (logdevFile pieces) = recordsAtStart true pieces :=
              ih h.right hempty
            rw [hsplit, recordsIn_line hline.left, hline.readRecord, startsLine_lineOf, hnext]
            rfl

/-!
# What the threads write
-/

theorem not_newline_of_numberChar {text : CString} (h : forall c, c ∈ text -> NumberChar c) :
    '\n' ∉ text := by
  intro hin
  exact (h '\n' hin).ne (by unfold NumberChar; decide) rfl

theorem printInt_noNewline (n : Int) : '\n' ∉ printInt n :=
  not_newline_of_numberChar fun _ => printInt_numberChar

theorem printFixed_noNewline (digits : Nat) (x : Double) : '\n' ∉ printFixed digits x :=
  not_newline_of_numberChar fun _ => printFixed_numberChar

theorem strange_number {text : CString} (h : forall c, c ∈ text -> NumberChar c)
    {more : CString} (hmore : Strange more) : Strange (text ++ more) := by
  cases text with
  | nil => exact hmore
  | cons c text =>
      have hc : NumberChar c := h c List.mem_cons_self
      have hmessage : c ≠ 'M' := hc.ne (by unfold NumberChar; decide)
      have herror : c ≠ 'E' := hc.ne (by unfold NumberChar; decide)
      exact strange_cons hmessage herror _

theorem isPart_of {text : CString} (h : '\n' ∉ text) (hstrange : Strange text) :
    IsPart text :=
  Or.inl ⟨h, Or.inr hstrange⟩

theorem isPart_line {body text : CString} (heq : text = lineOf body) (h : '\n' ∉ body)
    (hstrange : Strange body) : IsPart text :=
  Or.inr ⟨body, ⟨h, Or.inr hstrange⟩, heq⟩

theorem isPart_literal {text : CString} (h : '\n' ∉ text) (hlength : 4 ≤ text.length)
    (hkind : readKind (text.take 4) = none) : IsPart text := by
  have hstrange := strange_front hlength hkind []
  rw [List.append_nil] at hstrange
  exact isPart_of h hstrange

theorem isPart_newline : IsPart "\n".toList :=
  Or.inr ⟨[], ⟨List.not_mem_nil, Or.inl rfl⟩, rfl⟩

theorem strange_runningTime (runTime : Nat) (text : CString) :
    Strange (runningTime runTime ++ text) := by
  have hhours : runningTime runTime ++ text =
      twoDigits (runTime / 3600) ++ 'h' :: ' ' ::
        (twoDigits (runTime % 3600 / 60) ++ 'm' :: ' ' ::
          (twoDigits (runTime % 3600 % 60) ++ 's' :: text)) := by
    simp [runningTime]
  rw [hhours]
  exact strange_number (fun _ hc => Or.inl (twoDigits_isDigit hc))
    (strange_cons (by decide) (by decide) _)

theorem updateTest_parts {script : BurninScript} (hname : '\n' ∉ script.name)
    (hmsg : '\n' ∉ script.lastMsg) (runTime : Nat) :
    forall part, part ∈ updateTest runTime script -> IsPart part := by
  have htime := runningTime_noNewline runTime
  have hcounts := printInt_noNewline
  unfold updateTest
  rw [List.forall_mem_cons, List.forall_mem_cons, List.forall_mem_cons,
    List.forall_mem_cons, List.forall_mem_singleton]
  refine ⟨?_, ?_, ?_, ?_, isPart_newline⟩
  · exact isPart_of (by simp [htime]) (strange_runningTime runTime _)
  · exact isPart_of (by simp [hname]) ((strange_front (by decide) (by decide) _).append _)
  · exact isPart_of (by simp [hcounts])
      (((strange_front (by decide) (by decide) _).append _).append _)
  · exact isPart_of (by simp [hmsg]) (strange_front (by decide) (by decide) _)

theorem updateLogdevWrite_parts {scripts : List BurninScript}
    (htable : forall script, script ∈ scripts ->
      '\n' ∉ script.name ∧ '\n' ∉ script.lastMsg)
    (runTime : Nat) (temps : List TempData) :
    forall part, part ∈ updateLogdevWrite runTime temps scripts -> IsPart part := by
  have htime := runningTime_noNewline runTime
  unfold updateLogdevWrite
  simp only [List.forall_mem_append, List.forall_mem_singleton]
  refine ⟨⟨⟨⟨?_, ?_⟩, ?_⟩, isPart_newline⟩, ?_⟩
  · exact isPart_of (by simp [htime]) (strange_runningTime runTime _)
  · intro part hpart
    rcases List.mem_map.mp hpart with ⟨temp, _, rfl⟩
    have hnumber := printFixed_noNewline 1 temp.value
    exact isPart_of (by simp [hnumber])
      (strange_number (fun _ => printFixed_numberChar)
        (strange_cons (by decide) (by decide) _))
  · intro part hpart
    split at hpart
    · rw [List.mem_singleton.mp hpart]
      exact isPart_literal (by decide) (by decide) (by decide)
    · cases hpart
  · intro part hpart
    rcases List.mem_flatMap.mp hpart with ⟨script, hscript, hin⟩
    rcases htable script hscript with ⟨hname, hmsg⟩
    exact updateTest_parts hname hmsg runTime part hin

/-- With a blank behind it the text does not begin like a tag. -/
def StartsApart (text : CString) : Prop :=
  readKind ((text ++ [' ']).take 4) = none

/-- What begins like a tag has the whole word of the tag before its first other
character. -/
theorem take_tag {word text : CString} {c : Char} {more : CString} (hc : c ∉ word)
    (h : (text ++ c :: more).take (word.length + 1) = word ++ [' ']) :
    (text ++ [' ']).take (word.length + 1) = word ++ [' '] := by
  induction word generalizing text with
  | nil =>
      cases text with
      | nil => rfl
      | cons d text => exact h
  | cons w word ih =>
      rw [List.mem_cons, not_or] at hc
      cases text with
      | nil => exact absurd (List.cons.inj h).left hc.left
      | cons d text =>
          rcases List.cons.inj h with ⟨hw, htail⟩
          have hnext := ih hc.right htail
          rw [List.cons_append, List.length_cons, List.take_succ_cons, hw, hnext]
          rfl

theorem StartsApart.strange {text : CString} (h : StartsApart text) {c : Char}
    (hmessage : c ∉ "MSG".toList) (herror : c ∉ "ERR".toList) (more : CString) :
    Strange (text ++ c :: more) := by
  intro rest
  rw [List.append_assoc, List.cons_append]
  unfold StartsApart at h
  unfold readKind
  rw [if_neg, if_neg]
  · intro htag
    have hfront := @take_tag "ERR".toList text c (more ++ rest) herror htag
    rw [show (text ++ [' ']).take 4 = "ERR ".toList from hfront] at h
    exact absurd h (by decide)
  · intro htag
    have hfront := @take_tag "MSG".toList text c (more ++ rest) hmessage htag
    rw [show (text ++ [' ']).take 4 = "MSG ".toList from hfront] at h
    exact absurd h (by decide)

structure HeaderLines (t : Tables) : Prop where
  model : '\n' ∉ t.cpuInfo.model
  dmi : forall text, text ∈ t.dmiData.strings -> '\n' ∉ text
  disks : forall d, d ∈ t.diskInfo -> '\n' ∉ d.device ∧ StartsApart d.device
  nics : forall nic, nic ∈ t.nicData ->
    ('\n' ∉ nic.name ∧ '\n' ∉ nic.ipaddr ∧ '\n' ∉ nic.macaddr) ∧ StartsApart nic.name

theorem headerDisk_parts {d : DiskInfo} (hdevice : '\n' ∉ d.device)
    (hapart : StartsApart d.device) :
    forall part, part ∈ headerDisk d -> IsPart part := by
  have hsize := printFixed_noNewline 1 d.size
  have hspeed := printFixed_noNewline 1 d.performance
  unfold headerDisk
  simp only [List.forall_mem_append, List.forall_mem_cons]
  refine ⟨⟨⟨?_, ?_, fun _ hpart => absurd hpart List.not_mem_nil⟩, ?_⟩, isPart_newline,
    fun _ hpart => absurd hpart List.not_mem_nil⟩
  · exact isPart_literal (by decide) (by decide) (by decide)
  · rw [List.append_assoc]
    exact isPart_of (by simp [hdevice, hsize])
      (hapart.strange (by decide) (by decide) _)
  · intro part hpart
    split at hpart
    · rw [List.mem_singleton.mp hpart]
      exact isPart_of (by simp [hspeed]) (strange_cons (by decide) (by decide) _)
    · cases hpart

theorem headerNic_parts {nic : NicData} (hname : '\n' ∉ nic.name)
    (hip : '\n' ∉ nic.ipaddr) (hmac : '\n' ∉ nic.macaddr) (hapart : StartsApart nic.name) :
    forall part, part ∈ headerNic nic -> IsPart part := by
  unfold headerNic
  rw [List.forall_mem_cons, List.forall_mem_singleton]
  refine ⟨isPart_literal (by decide) (by decide) (by decide), ?_⟩
  have hline : nic.name ++ ' ' :: nic.ipaddr ++ " (".toList ++ nic.macaddr ++
        ")\n".toList =
      lineOf (nic.name ++ ' ' :: (nic.ipaddr ++ " (".toList ++ nic.macaddr ++
        ")".toList)) := by
    simp [lineOf]
  exact isPart_line hline (by simp [hname, hip, hmac])
    (hapart.strange (by decide) (by decide) _)

theorem headerMachine_parts {t : Tables} (h : HeaderLines t) :
    forall part, part ∈ headerMachine t -> IsPart part := by
  have hvendor : '\n' ∉ t.dmiData.boardVendor := h.dmi _ (by simp [DmiData.strings])
  have hproduct : '\n' ∉ t.dmiData.boardProduct := h.dmi _ (by simp [DmiData.strings])
  have hbios : '\n' ∉ t.dmiData.biosVersion := h.dmi _ (by simp [DmiData.strings])
  have hmodel := h.model
  have hint := printInt_noNewline
  have hreal := printFixed_noNewline
  have hrule : IsPart (List.replicate 65 '=' ++ "\n".toList) :=
    isPart_line rfl (by decide) (strange_cons (by decide) (by decide) _)
  have htitle : IsPart "  New breakin test started\n".toList :=
    @isPart_line "  New breakin test started".toList _ rfl (by decide)
      (strange_cons (by decide) (by decide) _)
  have hempty : IsPart [] := Or.inl ⟨List.not_mem_nil, Or.inl rfl⟩
  have hbody : forall {front body : CString}, 4 ≤ front.length ->
      readKind (front.take 4) = none -> '\n' ∉ front ++ body ->
        IsPart (lineOf (front ++ body)) :=
    fun hlength hkind hnewline =>
      isPart_line rfl hnewline (strange_front hlength hkind _)
  unfold headerMachine
  simp only [List.forall_mem_cons]
  refine ⟨hrule, htitle, hrule, hempty, ?_, ?_, ?_, ?_, fun _ hpart => absurd hpart List.not_mem_nil⟩
  · have hline := @hbody "Mobo : ".toList (t.dmiData.boardVendor ++ " - ".toList ++
      t.dmiData.boardProduct) (by decide) (by decide) (by simp [hvendor, hproduct])
    simpa [lineOf] using hline
  · have hline := @hbody "BIOS : ".toList t.dmiData.biosVersion (by decide) (by decide)
      (by simp [hbios])
    simpa [lineOf] using hline
  · have hline := @hbody "CPU  : ".toList (printInt t.cpuInfo.qty ++ " x ".toList ++
      t.cpuInfo.model ++ " (".toList ++ printFixed 0 t.cpuInfo.speed ++ " MHz)".toList)
      (by decide) (by decide) (by simp [hmodel, hint, hreal])
    simpa [lineOf] using hline
  · simp only [List.append_assoc]
    exact isPart_of (by simp [hreal]) (strange_front (by decide) (by decide) _)

theorem headerLogdev_parts {t : Tables} (h : HeaderLines t) :
    forall part, part ∈ headerLogdev t -> IsPart part := by
  have htriad := printFixed_noNewline 2 t.benchmarks.stream.triad
  unfold headerLogdev
  simp only [List.forall_mem_append, List.forall_mem_singleton]
  refine ⟨⟨⟨⟨⟨⟨⟨headerMachine_parts h, ?_⟩, isPart_newline⟩, ?_⟩, ?_⟩, ?_⟩, ?_⟩,
    isPart_newline⟩
  · intro part hpart
    split at hpart
    · rw [List.mem_singleton.mp hpart]
      exact isPart_of (by simp [htriad]) (strange_cons (by decide) (by decide) _)
    · cases hpart
  · intro part hpart
    rcases List.mem_flatMap.mp hpart with ⟨d, hd, hin⟩
    rcases h.disks d hd with ⟨hdevice, hapart⟩
    exact headerDisk_parts hdevice hapart part hin
  · intro part hpart
    split at hpart
    · rw [List.mem_singleton.mp hpart]
      exact @isPart_line "HDD  : No hard disk drives found".toList _ rfl (by decide)
        (strange_cons (by decide) (by decide) _)
    · cases hpart
  · intro part hpart
    rcases List.mem_flatMap.mp hpart with ⟨nic, hnic, hin⟩
    rcases h.nics nic hnic with ⟨⟨hname, hip, hmac⟩, hapart⟩
    exact headerNic_parts hname hip hmac hapart part hin
  · intro part hpart
    split at hpart
    · rw [List.mem_singleton.mp hpart]
      exact @isPart_line "NIC  : No network cards found".toList _ rfl (by decide)
        (strange_cons (by decide) (by decide) _)
    · cases hpart

/-!
# The file of a run
-/

def FromRun (pid : Nat) (tests : List CString) (acts : List Action) (m : Memory)
    (t : Tables) : Written -> Prop
  | .log _ call => call ∈ m.log ∨ OtherCall call
  | .part text => text ∈ headerLogdev t ∨
      exists front w' m' runTime temps, front <+: acts ∧
        run (start pid tests) front = some w' ∧ w'.memory? 0 = some m' ∧
          text ∈ updateLogdevWrite runTime temps m'.scripts

/-- Whatever the order in which the threads write, what is read from the file are the
records that found a line at its start.  A record in the middle of a line is lost, and
no other. -/
theorem logdev_reads_back {pid : Nat} {tests : List CString} {acts : List Action}
    {w : World} {m : Memory} (htests : forall name, name ∈ tests -> '\n' ∉ name)
    (hrun : ExecRun (start pid tests) acts w) (hm : w.memory? 0 = some m)
    {t : Tables} (hheader : HeaderLines t) {pieces : List Written}
    (hpieces : forall p, p ∈ pieces -> FromRun pid tests acts m t p) :
    recordsIn (logdevFile pieces) = recordsAtStart true pieces := by
  have hempty : InLine [] := ⟨List.not_mem_nil, Or.inl rfl⟩
  refine recordsIn_pieces ?_ hempty
  intro p hp
  cases p with
  | log runTime call =>
      rcases hpieces _ hp with hlog | hother
      · exact (run_logsLines htests hrun hm).left call hlog
      · exact hother.oneLine
  | part text =>
      rcases hpieces _ hp with htitle | ⟨front, w', m', runTime, temps, hfront, hrun',
        hm', hin⟩
      · exact headerLogdev_parts hheader text htitle
      · have hexec : ExecRun (start pid tests) front w' :=
          ⟨hrun', fun a ha => hrun.right a (hfront.subset ha)⟩
        exact updateLogdevWrite_parts (run_logsLines htests hexec hm').right runTime temps
          text hin

/-- A record comes between the calls of `fprintf` for a line. -/
def interrupted : List Written :=
  [.part (runningTime 5 ++ " : temps:".toList),
    .log 5 (.message "Starting burnin tests".toList),
    .part "Not supported".toList,
    .part "\n".toList]

theorem logdev_reads_back_interrupted :
    exists w m, run (start 1 ["hpl".toList]) oneScriptRun = some w ∧
      w.memory? 0 = some m ∧
      m.log = [.message "Starting hardware setup".toList,
        .message "Finished hardware setup".toList,
        .message "Starting burnin tests".toList] ∧
      recordsIn (logdevFile interrupted) = [] := by
  have hnames : forall name, name ∈ ["hpl".toList] -> '\n' ∉ name := by
    intro name hname
    rw [List.mem_singleton.mp hname]
    decide
  have hexec : forall a, a ∈ oneScriptRun -> ¬ ExecveFails a := by decide
  have hheader : HeaderLines (oneTest []) := by
    refine ⟨by decide, ?_, (fun _ hd => absurd hd List.not_mem_nil),
      fun _ hnic => absurd hnic List.not_mem_nil⟩
    intro text htext
    have hnil : (oneTest []).dmiData.strings = List.replicate 11 [] := rfl
    rw [hnil] at htext
    rw [List.eq_of_mem_replicate htext]
    exact List.not_mem_nil
  have hrun : exists w m, run (start 1 ["hpl".toList]) oneScriptRun = some w ∧
      w.memory? 0 = some m ∧
      m.log = [.message "Starting hardware setup".toList,
        .message "Finished hardware setup".toList,
        .message "Starting burnin tests".toList] := ⟨_, _, rfl, rfl, rfl⟩
  rcases hrun with ⟨w, m, hrun, hm, hlog⟩
  refine ⟨w, m, hrun, hm, hlog, ?_⟩
  have hpart : forall text, text ∈ updateLogdevWrite 5 [] [BurninScript.found "hpl".toList] ->
      FromRun 1 ["hpl".toList] oneScriptRun m (oneTest []) (.part text) := by
    intro text htext
    exact Or.inr ⟨[], start 1 ["hpl".toList], (startView ["hpl".toList]).mem, 5, [],
      List.nil_prefix, rfl, rfl, htext⟩
  have hfrom : forall p, p ∈ interrupted ->
      FromRun 1 ["hpl".toList] oneScriptRun m (oneTest []) p := by
    unfold interrupted
    simp only [List.forall_mem_cons]
    refine ⟨hpart _ ?_, ?_, hpart _ ?_, hpart _ ?_, fun _ hp => absurd hp List.not_mem_nil⟩
    · exact List.mem_cons_self
    · left
      rw [hlog]
      exact List.mem_cons_of_mem _ (List.mem_cons_of_mem _ List.mem_cons_self)
    · simp [updateLogdevWrite]
    · simp [updateLogdevWrite]
  rw [logdev_reads_back hnames ⟨hrun, hexec⟩ hm hheader hfrom]
  decide

end Scheduler
end Breakin
