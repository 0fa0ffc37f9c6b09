import Breakin.Scheduler.FindTests
import Breakin.Stats.CpuUsage
import Breakin.Stats.Disks
import Breakin.Stats.Nics
import Breakin.Stats.Sensors

/-!
# The capacities of the tables

The functions that fill the tables of the program, called one after the other.
All of them look at the capacity of their table but `find_burnin_tests`.
-/

namespace Breakin
namespace Stats

open Foundation
open Scheduler

structure SlotTables where
  burninScriptCount : Nat
  burninScripts : List BurninScript
  tempQty : Nat
  tempData : List Sensor
  fanQty : Nat
  fanData : List Sensor
  diskQty : Nat
  diskInfo : List DiskInfo
  cpuQty : Nat
  cpuUsage : List CpuSlot
  nicQty : Nat
  nicData : List NicRecord

structure SensorLocals where
  buf : List Char
  label : CString
  size : buf.length = BUFSIZ

/-- The calls that `update_stats` makes over and over. -/
inductive TableCall where
  | getCpuUsage (snapshot : Option (List CpuLine))
  | getIpmiSensors (temps fans : Option (List Char)) (vars : SensorLocals)
  | getHdInfo (listing : Option (List BlockEntry)) (buf : CString)
  | getNicInfo (probe : NicProbe)

namespace SlotTables

def zero : SlotTables where
  burninScriptCount := 0
  burninScripts := emptyTable
  tempQty := 0
  tempData := List.replicate MAX_TEMPS { name := [], value := 0 }
  fanQty := 0
  fanData := List.replicate MAX_FANS { name := [], value := 0 }
  diskQty := 0
  diskInfo := List.replicate MAX_DISKS
    { device := [], size := Double.zero, performance := Double.zero }
  cpuQty := 0
  cpuUsage := List.replicate MAX_CPUS zeroCpu
  nicQty := 0
  nicData := List.replicate MAX_NUM_NICS
    { name := [], macaddr := [], macaddrNum := [], ipaddr := [] }

/-- `find_burnin_tests`, which leaves the count when the directory cannot be
opened. -/
def findTests (disable : CString) (listing : Option (List CString))
    (s : SlotTables) : Option SlotTables :=
  match listing with
  | none => some s
  | some entries => do
      let filled ← findBurninTests disable s.burninScripts (some entries)
      some
        { s with
          burninScriptCount := filled.length
          burninScripts := filled ++ s.burninScripts.drop filled.length }

def call (s : SlotTables) : TableCall -> Option SlotTables
  | .getCpuUsage snapshot => do
      let r ← Stats.getCpuUsage snapshot s.cpuQty s.cpuUsage
      some { s with cpuQty := r.1, cpuUsage := r.2.1 }
  | .getIpmiSensors temps fans vars => do
      let r ← Stats.getIpmiSensors temps fans
        { buf := vars.buf
          label := vars.label
          tempData := s.tempData
          fanData := s.fanData }
      some
        { s with
          tempQty := r.tempQty
          tempData := r.tempData
          fanQty := r.fanQty
          fanData := r.fanData }
  | .getHdInfo listing buf => do
      let r ← Stats.getHdInfo listing buf s.diskQty s.diskInfo
      some { s with diskQty := r.1, diskInfo := r.2 }
  | .getNicInfo probe => do
      let r ← Stats.getNicInfo probe s.nicQty s.nicData
      some { s with nicQty := r.1, nicData := r.2 }

structure Within (s : SlotTables) : Prop where
  scripts : s.burninScriptCount ≤ MAX_BURNIN_SCRIPTS ∧
    s.burninScripts.length = MAX_BURNIN_SCRIPTS
  temps : s.tempQty ≤ MAX_TEMPS ∧ s.tempData.length = MAX_TEMPS
  fans : s.fanQty ≤ MAX_FANS ∧ s.fanData.length = MAX_FANS
  disks : s.diskQty ≤ MAX_DISKS ∧ s.diskInfo.length = MAX_DISKS
  cpus : s.cpuQty ≤ MAX_CPUS ∧ s.cpuUsage.length = MAX_CPUS
  nics : s.nicQty ≤ MAX_NUM_NICS ∧ s.nicData.length = MAX_NUM_NICS

theorem zero_within : zero.Within := by
  constructor
  all_goals
    constructor
    · exact Nat.zero_le _
    · exact List.length_replicate

/-!
# The calls of update_stats
-/

theorem getCpuUsage_within {s : SlotTables} (hs : s.Within)
    (snapshot : Option (List CpuLine)) :
    exists t, s.call (.getCpuUsage snapshot) = some t ∧ t.Within := by
  cases snapshot with
  | none => exact ⟨s, rfl, hs⟩
  | some lines =>
      rcases getCpuUsage_some lines s.cpuQty hs.cpus.right
        with ⟨table, hcall, hlength, _⟩
      simp only [call, hcall, Option.bind_eq_bind, Option.bind_some]
      refine ⟨_, rfl, { hs with cpus := ⟨?_, hlength⟩ }⟩
      exact List.length_take_le _ _

theorem getIpmiSensors_within {s : SlotTables} (hs : s.Within)
    (temps fans : Option (List Char)) (vars : SensorLocals) :
    exists t, s.call (.getIpmiSensors temps fans vars) = some t ∧
      t.Within := by
  rcases getIpmiSensors_runs
      { buf := vars.buf
        label := vars.label
        tempData := s.tempData
        fanData := s.fanData
        bufSize := vars.size
        tempSize := hs.temps.right
        fanSize := hs.fans.right } temps fans
    with ⟨t, f, _, _, ht, hf, hcall⟩
  simp only [call, hcall, Option.bind_eq_bind, Option.bind_some]
  exact ⟨_, rfl,
    { hs with temps := ⟨ht.qty, ht.table⟩, fans := ⟨hf.qty, hf.table⟩ }⟩

theorem getHdInfo_within {s : SlotTables} (hs : s.Within)
    (listing : Option (List BlockEntry)) (buf : CString) :
    exists t, s.call (.getHdInfo listing buf) = some t ∧ t.Within := by
  cases listing with
  | none => exact ⟨s, rfl, hs⟩
  | some entries =>
      rcases getHdInfo_some entries buf s.diskQty hs.disks.right
        with ⟨table, hcall, hlength, _⟩
      simp only [call, hcall, Option.bind_eq_bind, Option.bind_some]
      refine ⟨_, rfl, { hs with disks := ⟨?_, hlength⟩ }⟩
      exact List.length_take_le _ _

theorem getNicInfo_within {s : SlotTables} (hs : s.Within) (probe : NicProbe) :
    exists t, s.call (.getNicInfo probe) = some t ∧ t.Within := by
  rcases getNicInfo_some probe hs.nics.left hs.nics.right
    with ⟨qty, table, hcall, hqty, hlength⟩
  simp only [call, hcall, Option.bind_eq_bind, Option.bind_some]
  exact ⟨_, rfl, { hs with nics := ⟨hqty, hlength⟩ }⟩

theorem call_within {s : SlotTables} (hs : s.Within) (c : TableCall) :
    exists t, s.call c = some t ∧ t.Within := by
  cases c with
  | getCpuUsage snapshot => exact getCpuUsage_within hs snapshot
  | getIpmiSensors temps fans vars =>
      exact getIpmiSensors_within hs temps fans vars
  | getHdInfo listing buf => exact getHdInfo_within hs listing buf
  | getNicInfo probe => exact getNicInfo_within hs probe

end SlotTables

/-!
# The program
-/

structure DisableArg where
  text : CString
  noNul : NUL ∉ text

namespace DisableArg

def kept (d : DisableArg) : CString :=
  snprintf DISABLE_SIZE d.text

theorem disableBuffer_kept (d : DisableArg) :
    Holds (disableBuffer d.text) d.kept := by
  have hlen : d.kept.length < DISABLE_SIZE := by
    have hsize : 0 < DISABLE_SIZE := by decide
    have hle : d.kept.length ≤ DISABLE_SIZE - 1 := List.length_take_le _ _
    omega
  have hsame : disableBuffer d.kept = disableBuffer d.text := by
    unfold disableBuffer
    rw [snprintf_eq_self hlen]
    rfl
  rw [← hsame]
  exact disableBuffer_holds (fun h => d.noNul (List.mem_of_mem_take h)) hlen

end DisableArg

/-- `main` looks for the tests once, and then the tables are updated over and
over. -/
def runTables (d : DisableArg) (listing : Option (List CString))
    (calls : List TableCall) : Option SlotTables := do
  let s ← SlotTables.zero.findTests d.text listing
  runFrom SlotTables.call s calls

/-- No run writes behind a table, and every state it reaches is within them. -/
def NeverOverrun (d : DisableArg) (listing : Option (List CString)) : Prop :=
  forall calls, exists s, runTables d listing calls = some s ∧ s.Within

def TestsFit (d : DisableArg) (listing : Option (List CString)) : Prop :=
  forall entries, listing = some entries ->
    (keptNames (tokens ',' d.kept) entries).length ≤ MAX_BURNIN_SCRIPTS

theorem findBurninTests_place (d : DisableArg) (entries : List CString) :
    findBurninTests d.text emptyTable (some entries) =
      place [] emptyTable (keptNames (tokens ',' d.kept) entries) :=
  findLoop_eq d.disableBuffer_kept [] emptyTable entries

theorem emptyTable_length : emptyTable.length = MAX_BURNIN_SCRIPTS :=
  List.length_replicate

theorem findTests_within {d : DisableArg} {listing : Option (List CString)}
    (hfit : TestsFit d listing) :
    exists s, SlotTables.zero.findTests d.text listing = some s ∧
      s.Within := by
  cases listing with
  | none => exact ⟨SlotTables.zero, rfl, SlotTables.zero_within⟩
  | some entries =>
      have hnames := hfit entries rfl
      generalize hkept : keptNames (tokens ',' d.kept) entries = names at hnames
      have hroom : names.length ≤ emptyTable.length := by
        rw [emptyTable_length]
        exact hnames
      have hfound : findBurninTests d.text emptyTable (some entries) =
          some (List.zipWith fillSlot emptyTable names) := by
        rw [findBurninTests_place, hkept, place, if_pos hroom, List.nil_append]
      have hcount : (List.zipWith fillSlot emptyTable names).length =
          names.length := by
        rw [List.length_zipWith]
        exact Nat.min_eq_right hroom
      have hfind : SlotTables.zero.findTests d.text (some entries) = _ :=
        congrArg (Option.bind · _) hfound
      refine ⟨_, hfind, { SlotTables.zero_within with scripts := ⟨?_, ?_⟩ }⟩
      · rw [hcount]
        exact hnames
      · change (List.zipWith fillSlot emptyTable names ++
          emptyTable.drop (List.zipWith fillSlot emptyTable names).length).length
            = MAX_BURNIN_SCRIPTS
        rw [List.length_append, List.length_drop, hcount, emptyTable_length]
        omega

theorem testsFit_of_find {d : DisableArg} {entries : List CString}
    {filled : List BurninScript}
    (h : findBurninTests d.text emptyTable (some entries) = some filled) :
    (keptNames (tokens ',' d.kept) entries).length ≤ MAX_BURNIN_SCRIPTS := by
  rw [findBurninTests_place, place] at h
  by_cases hroom : (keptNames (tokens ',' d.kept) entries).length ≤
      emptyTable.length
  · rw [emptyTable_length] at hroom
    exact hroom
  · rw [if_neg hroom] at h
    cases h

/-- The tables are never overrun exactly when the directory holds no more tests
than there are slots. -/
theorem tables_neverOverrun_iff (d : DisableArg)
    (listing : Option (List CString)) :
    NeverOverrun d listing <-> TestsFit d listing := by
  constructor
  · intro hnever entries hentries
    rcases hnever [] with ⟨s, hrun, _⟩
    rw [hentries] at hrun
    cases hfind : findBurninTests d.text emptyTable (some entries) with
    | none =>
        have hnone : runTables d (some entries) [] = none := by
          change (findBurninTests d.text emptyTable (some entries)).bind _ >>=
            _ = none
          rw [hfind]
          rfl
        rw [hnone] at hrun
        cases hrun
    | some filled => exact testsFit_of_find hfind
  · intro hfit calls
    rcases findTests_within hfit with ⟨s, hfind, hs⟩
    have hgo : forall (u : SlotTables) (c : TableCall), u.Within -> True ->
        exists t, u.call c = some t ∧ t.Within :=
      fun u c hu _ => SlotTables.call_within hu c
    have hlegal : forall c : TableCall, c ∈ calls -> True :=
      fun _ _ => trivial
    rcases runFrom_total hgo hs hlegal with ⟨t, hrun, ht⟩
    exists t
    unfold runTables
    rw [hfind]
    exact ⟨hrun, ht⟩

/-!
# A crowded directory

One test more than there are slots.
-/

def crowdedListing : List CString :=
  (List.range (MAX_BURNIN_SCRIPTS + 1)).map fun n => 't' :: decimal n

def noDisable : DisableArg where
  text := []
  noNul := by simp

theorem crowdedDirectory_overruns :
    ¬ NeverOverrun noDisable (some crowdedListing) := by
  intro hnever
  rcases hnever [] with ⟨s, hrun, _⟩
  have hnone : (runTables noDisable (some crowdedListing) []).isSome =
      false := by decide +kernel
  rw [hrun] at hnone
  cases hnone

end Stats
end Breakin
