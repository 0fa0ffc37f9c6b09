import Mathlib.Data.Rat.Defs
import Breakin.Foundation.Runs
import Breakin.Foundation.SlotTable
import Breakin.Stats.DumpStats

/-!
# CPU usage

`get_cpu_usage` keeps the counters of every line of `/proc/stat` in the slot of
that line, and measures the next line in the same place against them.  Which CPU
the line belongs to is read and not used.
-/

namespace Breakin
namespace Stats

open Foundation

def MAX_CPUS : Nat := 16

/-- A line `cpu...` of `/proc/stat`. -/
structure CpuLine where
  cpu : CString
  user : UInt64
  nice : UInt64
  sys : UInt64
  idle : UInt64
deriving DecidableEq

/-- A slot of `cpu_usage`; the percentage is exact, and `none` where the code
divides by zero. -/
structure CpuSlot where
  cpuIdle : UInt32
  cpuUsage : UInt32
  lastIdle : UInt32
  lastUsage : UInt32
  percent : Option Rat
deriving DecidableEq

/-- `time_idle` and `time_used` of a line. -/
structure CpuTimes where
  idle : UInt32
  used : UInt32
deriving DecidableEq

namespace CpuLine

/-- `cpu_user + cpu_nice + cpu_sys`, of which `%d` has kept the low 32 bits, as it does
of counters below `2 ^ 63`. -/
def usageRead (line : CpuLine) : UInt32 :=
  line.user.toUInt32 + line.nice.toUInt32 + line.sys.toUInt32

def idleRead (line : CpuLine) : UInt32 :=
  line.idle.toUInt32

def usage (line : CpuLine) : Nat :=
  line.user.toNat + line.nice.toNat + line.sys.toNat

end CpuLine

def timesOf (line : CpuLine) (slot : CpuSlot) : CpuTimes where
  idle := line.idleRead - slot.lastIdle
  used := line.usageRead - slot.lastUsage

/-- `((double) time_used / time_total) * 100`, with the total in 32 bits. -/
def percentOf (t : CpuTimes) : Option Rat :=
  let total := t.idle + t.used
  if total = 0 then none
  else some ((t.used.toNat : Rat) / (total.toNat : Rat) * 100)

def writeCpu (line : CpuLine) (slot : CpuSlot) : CpuSlot where
  cpuIdle := line.idleRead
  cpuUsage := line.usageRead
  lastIdle := line.idleRead
  lastUsage := line.usageRead
  percent := percentOf (timesOf line slot)

/-- The loop over the lines, with the times it computes; `none` is a write behind
the table. -/
def cpuLoop : List CpuLine -> Nat -> List CpuSlot ->
    Option (Nat × List CpuSlot × List CpuTimes)
  | [], count, table => some (count, table, [])
  | line :: rest, count, table =>
      if count < MAX_CPUS then do
        let slot ← table[count]?
        let table' ← store table count (writeCpu line slot)
        let r ← cpuLoop rest (count + 1) table'
        some (r.1, r.2.1, timesOf line slot :: r.2.2)
      else cpuLoop rest count table

/-- `cpu_qty` and `cpu_usage` after the call, and the times computed in it; the
snapshot is `none` when the file cannot be opened. -/
def getCpuUsage (snapshot : Option (List CpuLine)) (qty : Nat)
    (table : List CpuSlot) : Option (Nat × List CpuSlot × List CpuTimes) :=
  match snapshot with
  | none => some (qty, table, [])
  | some lines => cpuLoop lines 0 table

/-!
# One call
-/

def timesFrom (count : Nat) (lines : List CpuLine) (table : List CpuSlot) :
    List CpuTimes :=
  (lines.zip (table.drop count)).map fun p => timesOf p.1 p.2

theorem timesFrom_cons {count : Nat} {line : CpuLine} {rest : List CpuLine}
    {table : List CpuSlot} (hi : count < table.length) (slot : CpuSlot) :
    timesFrom count (line :: rest) table =
      timesOf line table[count] ::
        timesFrom (count + 1) rest (table.set count slot) := by
  unfold timesFrom
  rw [List.drop_eq_getElem_cons hi, List.drop_set_of_lt (Nat.lt_succ_self _)]
  rfl

theorem cpuLoop_eq {lines : List CpuLine} {count : Nat} {table : List CpuSlot}
    (htable : table.length = MAX_CPUS) (hcount : count ≤ MAX_CPUS) :
    cpuLoop lines count table =
      (fillFrom count ((lines.take (MAX_CPUS - count)).map writeCpu) table).map
        fun table' => (count + (lines.take (MAX_CPUS - count)).length, table',
          timesFrom count (lines.take (MAX_CPUS - count)) table) := by
  induction lines generalizing count table with
  | nil => simp [cpuLoop, timesFrom]
  | cons line rest ih =>
      unfold cpuLoop
      by_cases hfull : count < MAX_CPUS
      · have hi : count < table.length := by omega
        have hleft : MAX_CPUS - count = (MAX_CPUS - (count + 1)) + 1 := by omega
        have hstore := store_of_lt hi (writeCpu line table[count])
        have hnext : cpuLoop rest (count + 1)
            (table.set count (writeCpu line table[count])) = _ :=
          ih (by rw [List.length_set, htable]) hfull
        rw [if_pos hfull]
        simp only [List.getElem?_eq_getElem hi, hstore, Option.bind_eq_bind,
          Option.bind_some]
        rw [hnext, hleft, List.take_succ_cons, List.map_cons, fillFrom_cons hi,
          timesFrom_cons hi (writeCpu line table[count]), List.length_cons]
        cases fillFrom (count + 1) _ _ with
        | none => rfl
        | some table' =>
            simp only [Option.map_some, Option.bind_some]
            congr 2
            omega
      · have hzero : MAX_CPUS - count = 0 := by omega
        rw [if_neg hfull, ih htable hcount, hzero]
        rfl

theorem getCpuUsage_some (lines : List CpuLine) (qty : Nat)
    {table : List CpuSlot} (htable : table.length = MAX_CPUS) :
    exists table' : List CpuSlot,
      getCpuUsage (some lines) qty table =
        some ((lines.take MAX_CPUS).length, table',
          timesFrom 0 (lines.take MAX_CPUS) table) ∧
      table'.length = MAX_CPUS ∧
        forall k : Nat, table'[k]? =
          match (lines.take MAX_CPUS)[k]? with
          | none => table[k]?
          | some line => table[k]?.map (writeCpu line) := by
  have hloop : cpuLoop lines 0 table = _ :=
    cpuLoop_eq htable (Nat.zero_le _)
  rw [Nat.sub_zero] at hloop
  have hroom : (lines.take MAX_CPUS).length ≤ table.length := by
    rw [htable]
    exact List.length_take_le _ _
  rcases fillFrom_front writeCpu hroom with ⟨table', hfill, hlength, hslots⟩
  refine ⟨table', ?_, hlength.trans htable, ?_⟩
  · simp only [getCpuUsage, hloop, hfill, Nat.zero_add, Option.map_some]
  · intro k
    rw [hslots]
    cases (lines.take MAX_CPUS)[k]? <;> rfl

theorem timesFrom_getElem? {lines : List CpuLine} {table : List CpuSlot}
    {k : Nat} {line : CpuLine} {slot : CpuSlot} (hline : lines[k]? = some line)
    (hslot : table[k]? = some slot) :
    (timesFrom 0 lines table)[k]? = some (timesOf line slot) := by
  have hzip : (lines.zip table)[k]? = some (line, slot) :=
    List.getElem?_zip_eq_some.mpr ⟨hline, hslot⟩
  unfold timesFrom
  rw [List.drop_zero, List.getElem?_map, hzip]
  rfl

/-!
# Counters and differences
-/

theorem usageRead_eq (line : CpuLine) :
    line.usageRead = UInt32.ofNat line.usage := by
  apply UInt32.toNat_inj.mp
  unfold CpuLine.usageRead CpuLine.usage
  rw [UInt32.toNat_add, UInt32.toNat_add, UInt64.toNat_toUInt32,
    UInt64.toNat_toUInt32, UInt64.toNat_toUInt32, UInt32.toNat_ofNat']
  omega

theorem idleRead_eq (line : CpuLine) :
    line.idleRead = UInt32.ofNat line.idle.toNat := by
  apply UInt32.toNat_inj.mp
  unfold CpuLine.idleRead
  rw [UInt64.toNat_toUInt32, UInt32.toNat_ofNat']

/-- The difference is the increase exactly when it is taken from the old counter,
or from one that agrees with it in the low 32 bits. -/
theorem difference_iff {old new : Nat} {last : UInt32} (hle : old ≤ new)
    (hsmall : new - old < 2 ^ 32) :
    (UInt32.ofNat new - last).toNat = new - old <-> last = UInt32.ofNat old := by
  have hlast := last.toNat_lt
  rw [UInt32.toNat_sub, UInt32.toNat_ofNat', ← UInt32.toNat_inj,
    UInt32.toNat_ofNat']
  omega

/-!
# A sequence of snapshots
-/

structure CpuState where
  cpuQty : Nat
  table : List CpuSlot
  last : List CpuLine
  times : List CpuTimes
deriving DecidableEq

def Advances (before after : List CpuLine) : Prop :=
  (after.map CpuLine.cpu).Nodup ∧
    forall line, line ∈ after -> forall old, old ∈ before ->
      old.cpu = line.cpu ->
        old.usage ≤ line.usage ∧ old.idle.toNat ≤ line.idle.toNat

instance (before after : List CpuLine) : Decidable (Advances before after) :=
  inferInstanceAs (Decidable (_ ∧ _))

def cpuStep (s : CpuState) (lines : List CpuLine) : Option CpuState :=
  if Advances s.last lines then
    (getCpuUsage (some lines) s.cpuQty s.table).map fun r =>
      { cpuQty := r.1, table := r.2.1, last := lines, times := r.2.2 }
  else none

def zeroCpu : CpuSlot where
  cpuIdle := 0
  cpuUsage := 0
  lastIdle := 0
  lastUsage := 0
  percent := some 0

def cpuStart : CpuState where
  cpuQty := 0
  table := List.replicate MAX_CPUS zeroCpu
  last := []
  times := []

/-- Line `k` is that of a CPU which was line `j` of the snapshot before, and its
increases do not wrap around. -/
structure SeenAgain (before after : List CpuLine) (k j : Nat)
    (old line : CpuLine) : Prop where
  inTable : k < MAX_CPUS ∧ j < MAX_CPUS
  now : after[k]? = some line
  before : before[j]? = some old
  same : old.cpu = line.cpu
  small : (line.usage - old.usage) + (line.idle.toNat - old.idle.toNat) < 2 ^ 32

/-- The times computed for every such line are the increases of its own CPU. -/
def OwnTimes (s : CpuState) (lines : List CpuLine)
    (times : List CpuTimes) : Prop :=
  forall k j old line, SeenAgain s.last lines k j old line ->
    exists t, times[k]? = some t ∧ t.used.toNat = line.usage - old.usage ∧
      t.idle.toNat = line.idle.toNat - old.idle.toNat

def MeasuresOwnCpus (snapshots : List (List CpuLine)) : Prop :=
  forall pre lines post s t, snapshots = pre ++ lines :: post ->
    runFrom cpuStep cpuStart pre = some s -> cpuStep s lines = some t ->
      OwnTimes s lines t.times

def MeasuresKeptLines (snapshots : List (List CpuLine)) : Prop :=
  forall pre lines post s t, snapshots = pre ++ lines :: post ->
    runFrom cpuStep cpuStart pre = some s -> cpuStep s lines = some t ->
      forall k old line, SeenAgain s.last lines k k old line ->
        exists u, t.times[k]? = some u ∧
          u.used.toNat = line.usage - old.usage ∧
            u.idle.toNat = line.idle.toNat - old.idle.toNat

/-- The slot of every such line holds, in the low 32 bits, the counters that the
line's CPU had. -/
def HoldsOwnCounters (s : CpuState) (lines : List CpuLine) : Prop :=
  Advances s.last lines ->
    forall k j old line, SeenAgain s.last lines k j old line ->
      exists slot : CpuSlot, s.table[k]? = some slot ∧
        slot.lastUsage = UInt32.ofNat old.usage ∧
          slot.lastIdle = UInt32.ofNat old.idle.toNat

theorem cpuStep_some {s t : CpuState} {lines : List CpuLine}
    (htable : s.table.length = MAX_CPUS) (h : cpuStep s lines = some t) :
    Advances s.last lines ∧ t.last = lines ∧
      t.times = timesFrom 0 (lines.take MAX_CPUS) s.table ∧
        t.table.length = MAX_CPUS ∧
          forall k : Nat, t.table[k]? =
            match (lines.take MAX_CPUS)[k]? with
            | none => s.table[k]?
            | some line => s.table[k]?.map (writeCpu line) := by
  unfold cpuStep at h
  by_cases hadvances : Advances s.last lines
  · rcases getCpuUsage_some lines s.cpuQty htable
      with ⟨table', hcall, hlength, hslots⟩
    rw [if_pos hadvances, hcall] at h
    cases h
    exact ⟨hadvances, rfl, rfl, hlength, hslots⟩
  · rw [if_neg hadvances] at h
    cases h

theorem cpuStep_enabled {s : CpuState} {lines : List CpuLine}
    (htable : s.table.length = MAX_CPUS) (h : Advances s.last lines) :
    exists t, cpuStep s lines = some t := by
  rcases getCpuUsage_some lines s.cpuQty htable with ⟨table', hcall, _, _⟩
  unfold cpuStep
  rw [if_pos h, hcall]
  exact ⟨_, rfl⟩

theorem table_reachable {snapshots : List (List CpuLine)} {s : CpuState}
    (hrun : runFrom cpuStep cpuStart snapshots = some s) :
    s.table.length = MAX_CPUS :=
  runFrom_history (R := fun _ s => s.table.length = MAX_CPUS)
    List.length_replicate
    (fun _ _ _ _ _ ih hstep => (cpuStep_some ih hstep).right.right.right.left)
    hrun

theorem times_iff {s t : CpuState} {lines : List CpuLine} {k j : Nat}
    {old line : CpuLine} (htable : s.table.length = MAX_CPUS)
    (hstep : cpuStep s lines = some t)
    (hseen : SeenAgain s.last lines k j old line) :
    exists slot : CpuSlot, s.table[k]? = some slot ∧
      t.times[k]? = some (timesOf line slot) ∧
        (((timesOf line slot).used.toNat = line.usage - old.usage ∧
          (timesOf line slot).idle.toNat = line.idle.toNat - old.idle.toNat) <->
          (slot.lastUsage = UInt32.ofNat old.usage ∧
            slot.lastIdle = UInt32.ofNat old.idle.toNat)) := by
  rcases cpuStep_some htable hstep with ⟨hadvances, _, htimes, _, _⟩
  have hk : k < s.table.length := by
    rw [htable]
    exact hseen.inTable.left
  have hslot : s.table[k]? = some s.table[k] := List.getElem?_eq_getElem hk
  have hnow : (lines.take MAX_CPUS)[k]? = some line := by
    rw [List.getElem?_take, if_pos hseen.inTable.left]
    exact hseen.now
  have hgrows := hadvances.right line (List.mem_of_getElem? hseen.now) old
    (List.mem_of_getElem? hseen.before) hseen.same
  have hsmall := hseen.small
  exists s.table[k]
  refine ⟨hslot, ?_, ?_⟩
  · rw [htimes]
    exact timesFrom_getElem? hnow hslot
  · unfold timesOf
    rw [usageRead_eq, idleRead_eq]
    exact and_congr (difference_iff hgrows.left (by omega))
      (difference_iff hgrows.right (by omega))

theorem ownTimes_iff {s t : CpuState} {lines : List CpuLine}
    (htable : s.table.length = MAX_CPUS) (hstep : cpuStep s lines = some t) :
    OwnTimes s lines t.times <-> HoldsOwnCounters s lines := by
  constructor
  · intro hown _ k j old line hseen
    rcases times_iff htable hstep hseen with ⟨slot, hslot, hcomputed, hiff⟩
    rcases hown k j old line hseen with ⟨times, hat, hvalues⟩
    rw [hcomputed, Option.some.injEq] at hat
    rw [← hat] at hvalues
    exact ⟨slot, hslot, hiff.mp hvalues⟩
  · intro hholds k j old line hseen
    have hadvances := (cpuStep_some htable hstep).left
    rcases times_iff htable hstep hseen with ⟨slot, hslot, hcomputed, hiff⟩
    rcases hholds hadvances k j old line hseen with ⟨slot', hslot', hcounters⟩
    rw [hslot, Option.some.injEq] at hslot'
    rw [← hslot'] at hcounters
    exact ⟨_, hcomputed, hiff.mpr hcounters⟩

theorem measures_iff_holds (snapshots : List (List CpuLine)) :
    MeasuresOwnCpus snapshots <->
      StepsMeet cpuStep cpuStart snapshots HoldsOwnCounters := by
  constructor
  · intro hmeasures pre lines post s hsnapshots hrun hadvances
    have htable := table_reachable hrun
    rcases cpuStep_enabled htable hadvances with ⟨t, hstep⟩
    exact (ownTimes_iff htable hstep).mp
      (hmeasures pre lines post s t hsnapshots hrun hstep) hadvances
  · intro hmeet pre lines post s t hsnapshots hrun hstep
    exact (ownTimes_iff (table_reachable hrun) hstep).mpr
      (hmeet pre lines post s hsnapshots hrun)

/-- The slots hold the counters of the lines that the last call read. -/
theorem slots_hold_last {snapshots : List (List CpuLine)} {s : CpuState}
    (hrun : runFrom cpuStep cpuStart snapshots = some s) :
    forall (k : Nat) (line : CpuLine), k < MAX_CPUS ->
      s.last[k]? = some line ->
        exists slot : CpuSlot, s.table[k]? = some slot ∧
          slot.lastUsage = UInt32.ofNat line.usage ∧
            slot.lastIdle = UInt32.ofNat line.idle.toNat := by
  cases snapshots using List.reverseRecOn with
  | nil =>
      cases hrun
      intro k line _ hline
      cases hline
  | append_singleton snapshots lines =>
      rcases runFrom_snoc.mp hrun with ⟨u, hpre, hstep⟩
      have htable := table_reachable hpre
      rcases cpuStep_some htable hstep with ⟨_, hlast, _, _, hslots⟩
      intro k line hk hline
      rw [hlast] at hline
      have hslot : u.table[k]? = some u.table[k] :=
        List.getElem?_eq_getElem (by omega)
      exists writeCpu line u.table[k]
      refine ⟨?_, usageRead_eq line, idleRead_eq line⟩
      rw [hslots, List.getElem?_take, if_pos hk, hline, hslot]
      rfl

theorem measures_keptLines (snapshots : List (List CpuLine)) :
    MeasuresKeptLines snapshots := by
  intro pre lines post s t _ hrun hstep k old line hseen
  rcases times_iff (table_reachable hrun) hstep hseen
    with ⟨slot, hslot, hcomputed, hiff⟩
  rcases slots_hold_last hrun k old hseen.inTable.left hseen.before
    with ⟨slot', hslot', hcounters⟩
  rw [hslot, Option.some.injEq] at hslot'
  rw [← hslot'] at hcounters
  exact ⟨_, hcomputed, hiff.mpr hcounters⟩

/-- A CPU that keeps its line is measured against itself, and every line is
exactly as long as its slot holds the counters of its CPU. -/
theorem cpuUsage_measures (snapshots : List (List CpuLine)) :
    MeasuresKeptLines snapshots ∧
      (MeasuresOwnCpus snapshots <->
        StepsMeet cpuStep cpuStart snapshots HoldsOwnCounters) :=
  ⟨measures_keptLines snapshots, measures_iff_holds snapshots⟩

/-!
# A CPU that goes offline

Its slot goes to the CPU after it, which is then measured against counters that
are not its own.
-/

def statLine (cpu : CString) (user idle : UInt64) : CpuLine where
  cpu := cpu
  user := user
  nice := 0
  sys := 0
  idle := idle

def onlineLines : List CpuLine :=
  [statLine "cpu".toList 30 60, statLine "cpu0".toList 10 20,
    statLine "cpu1".toList 5 25, statLine "cpu2".toList 15 15]

def offlineLines : List CpuLine :=
  [statLine "cpu".toList 40 70, statLine "cpu0".toList 15 25,
    statLine "cpu2".toList 20 20]

theorem offlineRun_not_measured :
    ¬ MeasuresOwnCpus [onlineLines, offlineLines] := by
  intro hmeasures
  have hholds := (measures_iff_holds _).mp hmeasures [onlineLines] offlineLines
    [] _ rfl rfl
  rcases hholds (by decide) 2 3 (statLine "cpu2".toList 15 15)
      (statLine "cpu2".toList 20 20)
      ⟨by decide, rfl, rfl, rfl, by decide⟩
    with ⟨slot, hslot, hcounters⟩
  cases hslot
  exact absurd hcounters.left (by decide)

end Stats
end Breakin
