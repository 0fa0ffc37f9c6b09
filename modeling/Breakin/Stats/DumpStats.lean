import Breakin.Foundation.Printf
import Breakin.Foundation.ShellText
import Breakin.Scheduler.State

/-!
# The stats file

`dump_stats` writes the tables as shell assignments, which the test scripts
source.
-/

namespace Breakin
namespace Stats

open Foundation
open Scheduler

/-!
# The tables
-/

structure CpuInfo where
  qty : Int
  model : CString
  speed : Double
deriving DecidableEq

structure CpuUsage where
  percent : Double
deriving DecidableEq

structure MemInfo where
  memTotal : Int
  memFree : Int
  memPercent : Double
  swapTotal : Int
  swapFree : Int
  swapPercent : Double
deriving DecidableEq

structure TempData where
  value : Double
deriving DecidableEq

structure DiskInfo where
  device : CString
  size : Double
  performance : Double
deriving DecidableEq

structure NicData where
  name : CString
  macaddr : CString
  ipaddr : CString
deriving DecidableEq

structure DmiData where
  biosVendor : CString
  biosVersion : CString
  biosDate : CString
  sysVendor : CString
  sysProduct : CString
  sysVersion : CString
  sysSerial : CString
  boardVendor : CString
  boardProduct : CString
  boardVersion : CString
  boardSerial : CString
deriving DecidableEq

structure StreamResult where
  triad : Double
  add : Double
  copy : Double
  scale : Double
deriving DecidableEq

structure Benchmarks where
  completed : Int
  stream : StreamResult
deriving DecidableEq

/-- What `dump_stats` reads.  The lists hold the table entries in use; the cells
of `cpu_usage` that no entry was stored in are zero. -/
structure Tables where
  cpuInfo : CpuInfo
  cpuQty : Nat
  cpuUsage : List CpuUsage
  memInfo : MemInfo
  tempData : List TempData
  diskInfo : List DiskInfo
  nicData : List NicData
  dmiData : DmiData
  benchmarks : Benchmarks
  burninScripts : List BurninScript
deriving DecidableEq

def Tables.cpuPercent (t : Tables) (i : Nat) : Double :=
  (t.cpuUsage.getD i { percent := Double.zero }).percent

/-!
# The file
-/

/-- The value of an assignment, as it is held in the tables. -/
inductive Value where
  | str (s : CString)
  | int (n : Int)
  | counter (n : UInt64)
  | real (digits : Nat) (x : Double)
deriving DecidableEq

/-- What `fprintf` writes between the quotes.  The format of the unsigned counters
is the signed `%ld`. -/
def Value.printed : Value -> CString
  | .str s => s
  | .int n => printInt n
  | .counter n => printInt n.toBitVec.toInt
  | .real digits x => printFixed digits x

/-- The value itself; that of a `double` is its decimal rendering. -/
def Value.held : Value -> CString
  | .str s => s
  | .int n => printInt n
  | .counter n => decimal n.toNat
  | .real digits x => printFixed digits x

abbrev Variable := CString × Value

def indexed (front : String) (i : Nat) (back : String) : CString :=
  front.toList ++ (decimal i ++ back.toList)

/-- `total_failed + fail_count`, stored back into the `int`. -/
def addFailed (total : Int32) (failCount : UInt64) : Int32 :=
  (total.toInt64.toUInt64 + failCount).toUInt32.toInt32

def totalFailed (scripts : List BurninScript) : Int32 :=
  scripts.foldl (fun total script => addFailed total script.failCount) 0

def cpuVariables (t : Tables) : List Variable :=
  [("CPU_QTY".toList, .int t.cpuInfo.qty),
    ("CPU_SPEED".toList, .real 0 t.cpuInfo.speed),
    ("CPU_MODEL".toList, .str t.cpuInfo.model),
    ("CPU_PERCENT".toList, .real 0 (t.cpuPercent 0))] ++
  (List.range (t.cpuQty - 1)).map fun k =>
    (indexed "CPU_" k "_PERCENT", .real 0 (t.cpuPercent (k + 1)))

def memVariables (m : MemInfo) : List Variable :=
  [("MEM_TOTAL".toList, .int m.memTotal),
    ("MEM_FREE".toList, .int m.memFree),
    ("MEM_PERCENT".toList, .real 0 m.memPercent),
    ("SWAP_TOTAL".toList, .int m.swapTotal),
    ("SWAP_FREE".toList, .int m.swapFree),
    ("SWAP_PERCENT".toList, .real 0 m.swapPercent)]

def tempVariables (temps : List TempData) : List Variable :=
  ("TEMP_QTY".toList, .int temps.length) ::
    temps.zipIdx.map fun (temp, i) => (indexed "TEMP_" i "", .real 0 temp.value)

def diskVariables (disks : List DiskInfo) : List Variable :=
  ("DISK_QTY".toList, .int disks.length) ::
    disks.zipIdx.flatMap fun (disk, i) =>
      [(indexed "DISK_" i "_NAME", .str disk.device),
        (indexed "DISK_" i "_SIZE", .real 6 disk.size),
        (indexed "DISK_" i "_PERFORMANCE", .real 6 disk.performance)]

def nicVariables (nics : List NicData) : List Variable :=
  ("NIC_QTY".toList, .int nics.length) ::
    nics.zipIdx.flatMap fun (nic, i) =>
      [(indexed "NIC_" i "_NAME", .str nic.name),
        (indexed "NIC_" i "_MAC", .str nic.macaddr),
        (indexed "NIC_" i "_IPADDR", .str nic.ipaddr)]

def dmiVariables (d : DmiData) : List Variable :=
  [("BIOS_VENDOR".toList, .str d.biosVendor),
    ("BIOS_VERSION".toList, .str d.biosVersion),
    ("BIOS_DATE".toList, .str d.biosDate),
    ("SYS_VENDOR".toList, .str d.sysVendor),
    ("SYS_PRODUCT".toList, .str d.sysProduct),
    ("SYS_VERSION".toList, .str d.sysVersion),
    ("SYS_SERIAL".toList, .str d.sysSerial),
    ("BOARD_VENDOR".toList, .str d.boardVendor),
    ("BOARD_PRODUCT".toList, .str d.boardProduct),
    ("BOARD_VERSION".toList, .str d.boardVersion),
    ("BOARD_SERIAL".toList, .str d.boardSerial)]

def benchmarkVariables (b : Benchmarks) : List Variable :=
  if b.completed ≠ 0 then
    [("MEM_TRIAD".toList, .real 6 b.stream.triad),
      ("MEM_ADD".toList, .real 6 b.stream.add),
      ("MEM_COPY".toList, .real 6 b.stream.copy),
      ("MEM_SCALE".toList, .real 6 b.stream.scale)]
  else
    []

def burninVariables (scripts : List BurninScript) : List Variable :=
  ("BURNIN_QTY".toList, .int scripts.length) ::
    (scripts.zipIdx.flatMap fun (script, i) =>
      [(indexed "BURNIN_" i "_NAME", .str script.name),
        (indexed "BURNIN_" i "_LASTMSG", .str script.lastMsg),
        (indexed "BURNIN_" i "_RUNNING", .int script.running),
        (indexed "BURNIN_" i "_PASS_QTY", .counter script.passCount),
        (indexed "BURNIN_" i "_FAIL_QTY", .counter script.failCount)]) ++
    [("BURNIN_TOTAL_FAIL_QTY".toList, .int (totalFailed scripts).toInt)]

def statVariables (t : Tables) : List Variable :=
  cpuVariables t ++ memVariables t.memInfo ++ tempVariables t.tempData ++
    diskVariables t.diskInfo ++ nicVariables t.nicData ++
      dmiVariables t.dmiData ++ benchmarkVariables t.benchmarks ++
        burninVariables t.burninScripts

/-- `fprintf(fp, "NAME=\"%s\"\n", value)` and its like. -/
def printVariable (v : Variable) : CString :=
  assignLine (v.1, v.2.printed)

/-- The text that `dump_stats` writes. -/
def dumpStats (t : Tables) : CString :=
  (statVariables t).flatMap printVariable

/-- Sourcing the file assigns to every variable the value held in the tables, and
does nothing else. -/
def RoundTrip (t : Tables) : Prop :=
  source (dumpStats t) = .ok ((statVariables t).map fun v => (v.1, v.2.held))

/-!
# Names
-/

theorem isName_indexed {front back : String} (hfront : IsName front.toList)
    (hback : back.toList.all nameChar = true) (i : Nat) :
    IsName (indexed front i back) := by
  constructor
  · have hstart := hfront.start
    unfold indexed
    cases hlist : front.toList with
    | nil =>
        rw [hlist] at hstart
        cases hstart
    | cons c rest =>
        rw [hlist] at hstart
        exact hstart
  · intro c hc
    rcases List.mem_append.mp hc with hmem | hrest
    · exact hfront.chars c hmem
    · rcases List.mem_append.mp hrest with hdigit | hmem
      · have hisDigit := decimal_isDigit hdigit
        simp [nameChar, Char.isAlphanum, hisDigit]
      · exact List.all_eq_true.mp hback c hmem

def Each (P : Variable -> Prop) (l : List Variable) : Prop :=
  forall v, v ∈ l -> P v

section Each

variable {P : Variable -> Prop}

theorem each_nil : Each P [] := by
  simp [Each]

theorem each_cons {v : Variable} {l : List Variable} :
    Each P (v :: l) <-> P v ∧ Each P l :=
  List.forall_mem_cons

theorem each_append {l l' : List Variable} :
    Each P (l ++ l') <-> Each P l ∧ Each P l' :=
  List.forall_mem_append

theorem each_loop {α : Type} {l : List α} {entry : α × Nat -> List Variable}
    {Q : α -> Prop} (h : forall a i, Each P (entry (a, i)) <-> Q a) :
    Each P (l.zipIdx.flatMap entry) <-> forall a, a ∈ l -> Q a := by
  have hmem : forall a, a ∈ l <-> exists i, (a, i) ∈ l.zipIdx := by
    intro a
    have hfst : a ∈ l.zipIdx.map Prod.fst <-> a ∈ l := by
      rw [l.zipIdx_map_fst 0]
    rw [← hfst, List.mem_map]
    constructor
    · rintro ⟨⟨a', i⟩, hi, rfl⟩
      exact ⟨i, hi⟩
    · rintro ⟨i, hi⟩
      exact ⟨(a, i), hi, rfl⟩
  constructor
  · intro heach a ha
    rcases (hmem a).mp ha with ⟨i, hi⟩
    exact (h a i).mp fun v hv =>
      heach v (List.mem_flatMap.mpr ⟨(a, i), hi, hv⟩)
  · intro hall v hv
    rcases List.mem_flatMap.mp hv with ⟨⟨a, i⟩, hi, hmem'⟩
    exact (h a i).mpr (hall a ((hmem a).mpr ⟨i, hi⟩)) v hmem'

theorem each_loop_of {α : Type} {l : List α} {entry : α × Nat -> List Variable}
    (h : forall a i, Each P (entry (a, i))) : Each P (l.zipIdx.flatMap entry) :=
  (each_loop fun a i => iff_true_intro (h a i)).mpr fun _ _ => trivial

end Each

def Named (v : Variable) : Prop :=
  IsName v.1

theorem named_mk {name : CString} {x : Value} :
    Named (name, x) <-> IsName name := Iff.rfl

theorem named_cpuVariables (t : Tables) : Each Named (cpuVariables t) := by
  refine each_append.mpr ⟨?_, ?_⟩
  · simp only [each_cons, each_nil, named_mk, and_true]
    decide
  · intro v hv
    rcases List.mem_map.mp hv with ⟨k, _, rfl⟩
    exact isName_indexed (by decide) (by decide) k

theorem named_memVariables (m : MemInfo) : Each Named (memVariables m) := by
  simp only [memVariables, each_cons, each_nil, named_mk,
    and_true]
  decide

theorem named_tempVariables (temps : List TempData) :
    Each Named (tempVariables temps) := by
  refine each_cons.mpr ⟨named_mk.mpr (by decide), ?_⟩
  intro v hv
  rcases List.mem_map.mp hv with ⟨⟨temp, i⟩, _, rfl⟩
  exact isName_indexed (by decide) (by decide) i

theorem named_diskVariables (disks : List DiskInfo) :
    Each Named (diskVariables disks) := by
  refine each_cons.mpr ⟨named_mk.mpr (by decide), each_loop_of fun disk i => ?_⟩
  simp only [each_cons, each_nil, named_mk, and_true]
  refine ⟨?_, ?_, ?_⟩
  all_goals exact isName_indexed (by decide) (by decide) i

theorem named_nicVariables (nics : List NicData) :
    Each Named (nicVariables nics) := by
  refine each_cons.mpr ⟨named_mk.mpr (by decide), each_loop_of fun nic i => ?_⟩
  simp only [each_cons, each_nil, named_mk, and_true]
  refine ⟨?_, ?_, ?_⟩
  all_goals exact isName_indexed (by decide) (by decide) i

theorem named_dmiVariables (d : DmiData) : Each Named (dmiVariables d) := by
  simp only [dmiVariables, each_cons, each_nil, named_mk,
    and_true]
  decide

theorem named_benchmarkVariables (b : Benchmarks) :
    Each Named (benchmarkVariables b) := by
  unfold benchmarkVariables
  split
  · simp only [each_cons, each_nil, named_mk, and_true]
    decide
  · exact each_nil

theorem named_burninVariables (scripts : List BurninScript) :
    Each Named (burninVariables scripts) := by
  unfold burninVariables
  rw [List.cons_append, each_cons, each_append]
  refine ⟨named_mk.mpr (by decide), each_loop_of fun script i => ?_, ?_⟩
  · simp only [each_cons, each_nil, named_mk, and_true]
    refine ⟨?_, ?_, ?_, ?_, ?_⟩
    all_goals exact isName_indexed (by decide) (by decide) i
  · simp only [each_cons, each_nil, named_mk, and_true]
    decide

theorem named_statVariables (t : Tables) : Each Named (statVariables t) := by
  simp only [statVariables, each_append]
  exact ⟨⟨⟨⟨⟨⟨⟨named_cpuVariables t, named_memVariables t.memInfo⟩,
    named_tempVariables t.tempData⟩, named_diskVariables t.diskInfo⟩,
    named_nicVariables t.nicData⟩, named_dmiVariables t.dmiData⟩,
    named_benchmarkVariables t.benchmarks⟩,
    named_burninVariables t.burninScripts⟩

/-!
# Values
-/

theorem numberChar_quiet {c : Char} (h : NumberChar c) : Quiet c := by
  rcases h with hdigit | hmem
  · unfold Quiet escapable
    simp only [Bool.or_eq_false_iff, beq_eq_false_iff_ne]
    refine ⟨⟨⟨?_, ?_⟩, ?_⟩, ?_⟩
    all_goals
      rintro rfl
      exact absurd hdigit (by decide)
  · have hall : ("-.infa".toList.all fun d => !escapable d) = true := by
      decide
    simpa [Quiet] using List.all_eq_true.mp hall c hmem

/-- What makes a value come back: a string is inert, and a counter is small enough
for its format. -/
def Value.Safe : Value -> Prop
  | .str s => Inert s
  | .int _ => True
  | .counter n => n.toNat < 2 ^ 63
  | .real _ _ => True

theorem Value.agrees (name : CString) (x : Value) :
    Agrees (name, x.printed) (name, x.held) := by
  refine ⟨rfl, ?_⟩
  cases x with
  | str s => exact Or.inl rfl
  | int n => exact Or.inl rfl
  | counter n =>
      exact Or.inr (inert_of_quiet fun c hc =>
        numberChar_quiet (printInt_numberChar hc))
  | real digits x => exact Or.inl rfl

theorem Value.safe_iff (x : Value) :
    x.Safe <-> x.printed = x.held ∧ Inert x.printed := by
  cases x with
  | str s => exact (and_iff_right rfl).symm
  | int n =>
      exact iff_of_true trivial ⟨rfl, inert_of_quiet fun c hc =>
        numberChar_quiet (printInt_numberChar hc)⟩
  | counter n =>
      have hinert : Inert (Value.counter n).printed := inert_of_quiet fun c hc =>
        numberChar_quiet (printInt_numberChar hc)
      exact (printInt_signed_iff n).symm.trans (and_iff_left hinert).symm
  | real digits x =>
      exact iff_of_true trivial ⟨rfl, inert_of_quiet fun c hc =>
        numberChar_quiet (printFixed_numberChar hc)⟩

/-!
# The whole file
-/

def Safe (v : Variable) : Prop :=
  v.2.Safe

theorem safe_mk {name : CString} {x : Value} :
    Safe (name, x) <-> x.Safe := Iff.rfl

theorem safe_int (name : CString) (n : Int) : Safe (name, .int n) := trivial

theorem roundTrip_iff_safe (t : Tables) :
    RoundTrip t <-> Each Safe (statVariables t) := by
  have hnamed := named_statVariables t
  unfold RoundTrip dumpStats
  generalize statVariables t = l at hnamed
  have htext : l.flatMap printVariable =
      (l.map fun v => (v.1, v.2.printed)).flatMap assignLine := by
    rw [List.flatMap_map]
    rfl
  have hnames : forall e, e ∈ l.map (fun v => (v.1, v.2.printed)) ->
      IsName e.1 := by
    intro e he
    rcases List.mem_map.mp he with ⟨v, hv, rfl⟩
    exact hnamed v hv
  have hagrees : List.Forall₂ Agrees (l.map fun v => (v.1, v.2.printed))
      (l.map fun v => (v.1, v.2.held)) := by
    rw [List.forall₂_map_left_iff, List.forall₂_map_right_iff,
      List.forall₂_same]
    exact fun v _ => Value.agrees v.1 v.2
  rw [htext, source_eq_iff hnames hagrees, List.map_inj_left,
    List.forall_mem_map]
  constructor
  · rintro ⟨hsame, hinert⟩ v hv
    exact v.2.safe_iff.mpr ⟨(Prod.mk.inj (hsame v hv)).right, hinert v hv⟩
  · intro hsafe
    constructor
    · intro v hv
      rw [(v.2.safe_iff.mp (hsafe v hv)).left]
    · exact fun v hv => (v.2.safe_iff.mp (hsafe v hv)).right

def DmiData.strings (d : DmiData) : List CString :=
  [d.biosVendor, d.biosVersion, d.biosDate, d.sysVendor, d.sysProduct,
    d.sysVersion, d.sysSerial, d.boardVendor, d.boardProduct, d.boardVersion,
    d.boardSerial]

def Tables.strings (t : Tables) : List CString :=
  t.cpuInfo.model ::
    (t.diskInfo.map DiskInfo.device ++
      t.nicData.flatMap (fun nic => [nic.name, nic.macaddr, nic.ipaddr]) ++
        t.dmiData.strings ++
          t.burninScripts.flatMap fun script => [script.name, script.lastMsg])

def Tables.CountersFit (t : Tables) : Prop :=
  forall script, script ∈ t.burninScripts ->
    script.passCount.toNat < 2 ^ 63 ∧ script.failCount.toNat < 2 ^ 63

theorem allSafe_cpuVariables (t : Tables) :
    Each Safe (cpuVariables t) <-> Inert t.cpuInfo.model := by
  have hloop : Each Safe ((List.range (t.cpuQty - 1)).map fun k =>
      (indexed "CPU_" k "_PERCENT", Value.real 0 (t.cpuPercent (k + 1)))) := by
    intro v hv
    rcases List.mem_map.mp hv with ⟨k, _, rfl⟩
    trivial
  unfold cpuVariables
  rw [each_append, and_iff_left hloop]
  simp [each_cons, each_nil, safe_mk, Value.Safe]

theorem allSafe_tempVariables (temps : List TempData) :
    Each Safe (tempVariables temps) := by
  refine each_cons.mpr ⟨trivial, ?_⟩
  intro v hv
  rcases List.mem_map.mp hv with ⟨⟨temp, i⟩, _, rfl⟩
  trivial

theorem allSafe_diskVariables (disks : List DiskInfo) :
    Each Safe (diskVariables disks) <->
      forall disk, disk ∈ disks -> Inert disk.device := by
  unfold diskVariables
  rw [each_cons, and_iff_right (safe_int _ _)]
  exact each_loop fun disk i => by simp [each_cons, each_nil, safe_mk, Value.Safe]

theorem allSafe_nicVariables (nics : List NicData) :
    Each Safe (nicVariables nics) <->
      forall nic, nic ∈ nics ->
        Inert nic.name ∧ Inert nic.macaddr ∧ Inert nic.ipaddr := by
  unfold nicVariables
  rw [each_cons, and_iff_right (safe_int _ _)]
  exact each_loop fun nic i => by simp [each_cons, each_nil, safe_mk, Value.Safe]

theorem allSafe_dmiVariables (d : DmiData) :
    Each Safe (dmiVariables d) <-> forall s, s ∈ d.strings -> Inert s := by
  simp [dmiVariables, DmiData.strings, each_cons, each_nil, safe_mk, Value.Safe]

theorem allSafe_benchmarkVariables (b : Benchmarks) :
    Each Safe (benchmarkVariables b) := by
  unfold benchmarkVariables
  split
  · simp [each_cons, each_nil, safe_mk, Value.Safe]
  · exact each_nil

theorem allSafe_burninVariables (scripts : List BurninScript) :
    Each Safe (burninVariables scripts) <->
      forall script, script ∈ scripts ->
        (Inert script.name ∧ Inert script.lastMsg) ∧
          script.passCount.toNat < 2 ^ 63 ∧ script.failCount.toNat < 2 ^ 63 := by
  have htotal : Each Safe
      [("BURNIN_TOTAL_FAIL_QTY".toList, .int (totalFailed scripts).toInt)] :=
    each_cons.mpr ⟨trivial, each_nil⟩
  unfold burninVariables
  rw [List.cons_append, each_cons, and_iff_right (safe_int _ _), each_append,
    and_iff_left htotal]
  exact each_loop fun script i => by
    simp [each_cons, each_nil, safe_mk, Value.Safe, and_assoc]

theorem allSafe_memVariables (m : MemInfo) : Each Safe (memVariables m) := by
  simp [memVariables, each_cons, each_nil, safe_mk, Value.Safe]

theorem Tables.forall_strings_iff (t : Tables) (P : CString -> Prop) :
    (forall s, s ∈ t.strings -> P s) <->
      P t.cpuInfo.model ∧
      (forall disk, disk ∈ t.diskInfo -> P disk.device) ∧
      (forall nic, nic ∈ t.nicData ->
        P nic.name ∧ P nic.macaddr ∧ P nic.ipaddr) ∧
      (forall s, s ∈ t.dmiData.strings -> P s) ∧
      forall script, script ∈ t.burninScripts ->
        P script.name ∧ P script.lastMsg := by
  simp only [Tables.strings, List.forall_mem_cons, List.forall_mem_append,
    List.forall_mem_map, List.forall_mem_flatMap, List.not_mem_nil,
    false_implies, implies_true, and_true, and_assoc]

/-- The stats file is read back as it was held when every string is inert and the
counters fit their format, and only then. -/
theorem dumpStats_roundTrip_iff (t : Tables) :
    RoundTrip t <-> (forall s, s ∈ t.strings -> Inert s) ∧ t.CountersFit := by
  rw [roundTrip_iff_safe]
  simp only [statVariables, each_append, allSafe_cpuVariables,
    allSafe_diskVariables, allSafe_nicVariables, allSafe_dmiVariables,
    allSafe_burninVariables, allSafe_memVariables, allSafe_tempVariables,
    allSafe_benchmarkVariables, and_true]
  rw [t.forall_strings_iff]
  simp only [Tables.CountersFit, forall₂_and, and_assoc]

/-!
# What the shell reads
-/

def Quoted (v : Variable) : Prop :=
  Inert v.2.printed

theorem Each.quoted {l : List Variable} (h : Each Safe l) : Each Quoted l :=
  fun v hv => (v.2.safe_iff.mp (h v hv)).right

theorem quoted_burninVariables {scripts : List BurninScript}
    (h : forall script, script ∈ scripts ->
      Inert script.name ∧ Inert script.lastMsg) :
    Each Quoted (burninVariables scripts) := by
  have hint : forall (name : CString) (n : Int), Quoted (name, .int n) :=
    fun name n => (Value.safe_iff (.int n)).mp trivial |>.right
  have hcounter : forall (name : CString) (n : UInt64),
      Quoted (name, .counter n) := fun _ n =>
    inert_of_quiet fun _ hc => numberChar_quiet (printInt_numberChar hc)
  have hstr : forall name s : CString, Quoted (name, .str s) <-> Inert s :=
    fun _ _ => Iff.rfl
  unfold burninVariables
  rw [List.cons_append, each_cons, each_append]
  refine ⟨hint _ _, (each_loop fun script i => ?_).mpr h,
    each_cons.mpr ⟨hint _ _, each_nil⟩⟩
  simp only [each_cons, each_nil, hstr, hint, hcounter, and_true]

/-- With inert strings the shell holds what was printed. -/
theorem source_dumpStats {t : Tables} (h : forall s, s ∈ t.strings -> Inert s) :
    source (dumpStats t) =
      .ok ((statVariables t).map fun v => (v.1, v.2.printed)) := by
  rcases (t.forall_strings_iff Inert).mp h
    with ⟨hmodel, hdisks, hnics, hdmi, hscripts⟩
  have hquoted : Each Quoted (statVariables t) := by
    simp only [statVariables, each_append]
    exact ⟨⟨⟨⟨⟨⟨⟨((allSafe_cpuVariables t).mpr hmodel).quoted,
      (allSafe_memVariables _).quoted⟩, (allSafe_tempVariables _).quoted⟩,
      ((allSafe_diskVariables _).mpr hdisks).quoted⟩,
      ((allSafe_nicVariables _).mpr hnics).quoted⟩,
      ((allSafe_dmiVariables _).mpr hdmi).quoted⟩,
      (allSafe_benchmarkVariables _).quoted⟩, quoted_burninVariables hscripts⟩
  have htext : dumpStats t =
      ((statVariables t).map fun v => (v.1, v.2.printed)).flatMap
        assignLine := by
    rw [List.flatMap_map]
    rfl
  unfold source
  rw [htext, run_inertLines]
  · rfl
  · exact List.forall_mem_map.mpr (named_statVariables t)
  · exact List.forall_mem_map.mpr hquoted

def oneTest (msg : CString) : Tables where
  cpuInfo := { qty := 1, model := "Xeon".toList, speed := Double.finite false 3 10 }
  cpuQty := 0
  cpuUsage := []
  memInfo :=
    { memTotal := 0, memFree := 0, memPercent := Double.zero, swapTotal := 0
      swapFree := 0, swapPercent := Double.zero }
  tempData := []
  diskInfo := []
  nicData := []
  dmiData :=
    { biosVendor := [], biosVersion := [], biosDate := [], sysVendor := []
      sysProduct := [], sysVersion := [], sysSerial := [], boardVendor := []
      boardProduct := [], boardVersion := [], boardSerial := [] }
  benchmarks :=
    { completed := 0
      stream :=
        { triad := Double.zero, add := Double.zero, copy := Double.zero
          scale := Double.zero } }
  burninScripts := [{ BurninScript.found "hpl".toList with lastMsg := msg }]

example : RoundTrip (oneTest "Passed, 3 > 2".toList) := by
  unfold RoundTrip
  decide +kernel

theorem oneTest_not_roundTrip {msg : CString} (h : ¬ Inert msg) :
    ¬ RoundTrip (oneTest msg) := by
  rw [roundTrip_iff_safe]
  intro hsafe
  have hscripts : Each Safe (burninVariables (oneTest msg).burninScripts) := by
    intro v hv
    exact hsafe v (List.mem_append_right _ hv)
  have hmsg := (allSafe_burninVariables _).mp hscripts _ List.mem_cons_self
  exact h hmsg.left.right

/-- A message that the shell runs, and one that it cuts off. -/
theorem lastMsg_not_roundTrip :
    source (dumpStats (oneTest "$(reboot)".toList)) = .error .command ∧
    ¬ RoundTrip (oneTest "$(reboot)".toList) ∧
    ¬ RoundTrip (oneTest "disk \"sda\" failed".toList) := by
  refine ⟨?_, ?_, ?_⟩
  · decide +kernel
  · exact oneTest_not_roundTrip fun h => absurd h.pairs (by decide)
  · exact oneTest_not_roundTrip fun h => h.noQuote (by decide)

end Stats
end Breakin
