import Mathlib.Data.List.Nodup
import Breakin.Scripts.Failid
import Breakin.Stats.DumpStats

/-!
# Sourcing the stats file

Every test script begins by sourcing `breakin.dat`.  No two assignments of that file
have the same name, so that each variable holds what was printed for it.
-/

namespace Breakin
namespace Scripts

open Foundation
open Scheduler
open Stats

def names (l : List Variable) : List CString :=
  l.map Prod.fst

def word (name : CString) : CString :=
  name.takeWhile fun c => c != '_'

def indexIn (front : String) (name : CString) : CString :=
  (name.drop front.toList.length).takeWhile Char.isDigit

def benchmarkNames : List CString :=
  ["MEM_TRIAD".toList, "MEM_ADD".toList, "MEM_COPY".toList, "MEM_SCALE".toList]

def wordTable : List (CString × Nat) :=
  [("CPU".toList, 0), ("MEM".toList, 1), ("SWAP".toList, 1), ("TEMP".toList, 2),
    ("DISK".toList, 3), ("NIC".toList, 4), ("BIOS".toList, 5),
    ("SYS".toList, 5), ("BOARD".toList, 5), ("BURNIN".toList, 7)]

def tableOf (name : CString) : Nat :=
  if benchmarkNames.contains name then 6
  else (wordTable.lookup (word name)).getD 8

/-!
# Indexed names
-/

theorem word_indexed {front : String} (h : '_' ∈ front.toList) (i : Nat)
    (back : String) : word (indexed front i back) = word front.toList := by
  unfold word indexed
  rw [List.takeWhile_append, if_neg]
  intro hlen
  have hall := List.takeWhile_eq_self_iff.mp
    ((List.takeWhile_prefix _).eq_of_length hlen) '_' h
  simp at hall

theorem tableOf_indexed {front : String} {k : Nat} (h : '_' ∈ front.toList)
    (hword : wordTable.lookup (word front.toList) = some k)
    (hnot : word front.toList ≠ "MEM".toList) (i : Nat) (back : String) :
    tableOf (indexed front i back) = k := by
  have hbench : forall name, name ∈ benchmarkNames ->
      word name = "MEM".toList := by decide
  unfold tableOf
  rw [word_indexed h, hword, if_neg]
  · rfl
  · intro hin
    have hmem := hbench _ (List.contains_iff_mem.mp hin)
    rw [word_indexed h] at hmem
    exact hnot hmem

def DigitFree (back : String) : Prop :=
  back.toList.takeWhile Char.isDigit = []

instance : DecidablePred DigitFree := fun back =>
  inferInstanceAs (Decidable (back.toList.takeWhile Char.isDigit = []))

theorem indexIn_indexed {back : String} (h : DigitFree back) (front : String)
    (i : Nat) : indexIn front (indexed front i back) = decimal i := by
  unfold indexIn indexed
  rw [List.drop_left, List.takeWhile_append_of_pos fun _ => decimal_isDigit, h,
    List.append_nil]

theorem indexed_back {front back back' : String} {i : Nat}
    (h : indexed front i back = indexed front i back') : back = back' := by
  unfold indexed at h
  exact String.toList_injective
    (List.append_cancel_left (List.append_cancel_left h))

def loopNames (front : String) (n : Nat) (backs : List String) :
    List CString :=
  (List.range n).flatMap fun i => backs.map (indexed front i)

theorem mem_loopNames {front : String} {n : Nat} {backs : List String}
    {name : CString} (h : name ∈ loopNames front n backs) :
    exists i back, back ∈ backs ∧ name = indexed front i back := by
  rcases List.mem_flatMap.mp h with ⟨i, _, hin⟩
  rcases List.mem_map.mp hin with ⟨back, hback, heq⟩
  exact ⟨i, back, hback, heq.symm⟩

theorem loopNames_nodup (front : String) (n : Nat) {backs : List String}
    (hnodup : backs.Nodup) (hfree : forall back, back ∈ backs -> DigitFree back) :
    (loopNames front n backs).Nodup := by
  unfold loopNames
  rw [List.nodup_flatMap]
  refine ⟨fun i _ => hnodup.map fun _ _ => indexed_back, ?_⟩
  refine List.nodup_range.imp ?_
  intro i j hne name hi hj
  rcases List.mem_map.mp hi with ⟨back, hback, heq⟩
  rcases List.mem_map.mp hj with ⟨back', hback', heq'⟩
  have hsame : decimal i = decimal j := by
    rw [← indexIn_indexed (hfree back hback) front i,
      ← indexIn_indexed (hfree back' hback') front j, heq, heq']
  exact hne (decimal_injective hsame)

theorem names_loop {α : Type} (l : List α) {entry : α × Nat -> List Variable}
    {front : String} {backs : List String}
    (h : forall e, names (entry e) = backs.map (indexed front e.2)) :
    names (l.zipIdx.flatMap entry) = loopNames front l.length backs := by
  unfold loopNames
  rw [List.range_eq_range', ← List.zipIdx_map_snd 0 l, List.flatMap_map]
  unfold names at h ⊢
  rw [List.map_flatMap]
  exact List.flatMap_congr fun e _ => h e

/-!
# No name twice
-/

structure Group (k : Nat) (l : List CString) : Prop where
  nodup : l.Nodup
  table : forall name, name ∈ l -> tableOf name = k

structure Before (k : Nat) (l : List CString) : Prop where
  nodup : l.Nodup
  table : forall name, name ∈ l -> tableOf name < k

theorem Before.append {k : Nat} {l l' : List CString} (h : Before k l)
    (h' : Group k l') : Before (k + 1) (l ++ l') where
  nodup := by
    refine h.nodup.append h'.nodup ?_
    intro name hin hin'
    have hlt := h.table name hin
    rw [h'.table name hin'] at hlt
    exact Nat.lt_irrefl k hlt
  table := by
    intro name hin
    rcases List.mem_append.mp hin with hold | hnew
    · exact Nat.lt_succ_of_lt (h.table name hold)
    · rw [h'.table name hnew]
      exact Nat.lt_succ_self k

theorem group_of_loop {k n : Nat} {front : String} {backs : List String}
    {plain behind : List CString} (hfront : '_' ∈ front.toList)
    (hword : wordTable.lookup (word front.toList) = some k)
    (hnot : word front.toList ≠ "MEM".toList) (hbacks : backs.Nodup)
    (hfree : forall back, back ∈ backs -> DigitFree back)
    (hplain : (plain ++ behind).Nodup)
    (hnames : forall name, name ∈ plain ++ behind ->
      tableOf name = k ∧ indexIn front name = []) :
    Group k (plain ++ loopNames front n backs ++ behind) where
  nodup := by
    rw [List.append_assoc, List.Perm.nodup_iff
      (List.Perm.append_left plain List.perm_append_comm), ← List.append_assoc]
    refine hplain.append (loopNames_nodup front n hbacks hfree) ?_
    intro name hin hloop
    rcases mem_loopNames hloop with ⟨i, back, hback, heq⟩
    have hindex := (hnames name hin).right
    rw [heq, indexIn_indexed (hfree back hback)] at hindex
    exact Nat.toDigits_ne_nil hindex
  table := by
    intro name hin
    have hcases : name ∈ plain ++ behind ∨ name ∈ loopNames front n backs := by
      simp only [List.mem_append] at hin ⊢
      tauto
    rcases hcases with hin' | hloop
    · exact (hnames name hin').left
    · rcases mem_loopNames hloop with ⟨i, back, _, heq⟩
      rw [heq]
      exact tableOf_indexed hfront hword hnot i back

/-!
# The names of the file
-/

def cpuNames (qty : Nat) : List CString :=
  ["CPU_QTY".toList, "CPU_SPEED".toList, "CPU_MODEL".toList,
    "CPU_PERCENT".toList] ++ loopNames "CPU_" (qty - 1) ["_PERCENT"] ++ []

def memNames : List CString :=
  ["MEM_TOTAL".toList, "MEM_FREE".toList, "MEM_PERCENT".toList,
    "SWAP_TOTAL".toList, "SWAP_FREE".toList, "SWAP_PERCENT".toList]

def tempNames (qty : Nat) : List CString :=
  ["TEMP_QTY".toList] ++ loopNames "TEMP_" qty [""] ++ []

def diskNames (qty : Nat) : List CString :=
  ["DISK_QTY".toList] ++
    loopNames "DISK_" qty ["_NAME", "_SIZE", "_PERFORMANCE"] ++ []

def nicNames (qty : Nat) : List CString :=
  ["NIC_QTY".toList] ++ loopNames "NIC_" qty ["_NAME", "_MAC", "_IPADDR"] ++ []

def dmiNames : List CString :=
  ["BIOS_VENDOR".toList, "BIOS_VERSION".toList, "BIOS_DATE".toList,
    "SYS_VENDOR".toList, "SYS_PRODUCT".toList, "SYS_VERSION".toList,
    "SYS_SERIAL".toList, "BOARD_VENDOR".toList, "BOARD_PRODUCT".toList,
    "BOARD_VERSION".toList, "BOARD_SERIAL".toList]

def burninNames (qty : Nat) : List CString :=
  ["BURNIN_QTY".toList] ++
    loopNames "BURNIN_" qty
      ["_NAME", "_LASTMSG", "_RUNNING", "_PASS_QTY", "_FAIL_QTY"] ++
    ["BURNIN_TOTAL_FAIL_QTY".toList]

theorem names_append (l l' : List Variable) :
    names (l ++ l') = names l ++ names l' :=
  List.map_append

theorem names_cpuVariables (t : Tables) :
    names (cpuVariables t) = cpuNames t.cpuQty := by
  unfold cpuNames loopNames cpuVariables
  rw [names_append, List.append_nil]
  congr 1
  unfold names
  rw [List.map_map, List.map_eq_flatMap]
  rfl

theorem names_tempVariables (temps : List TempData) :
    names (tempVariables temps) = tempNames temps.length := by
  have hloop : names (temps.zipIdx.flatMap fun e =>
      [(indexed "TEMP_" e.2 "", Value.real 0 e.1.value)]) =
        loopNames "TEMP_" temps.length [""] := names_loop temps fun _ => rfl
  unfold tempNames
  rw [List.append_nil, ← hloop, ← List.map_eq_flatMap]
  rfl

theorem names_diskVariables (disks : List DiskInfo) :
    names (diskVariables disks) = diskNames disks.length := by
  have hloop : names (disks.zipIdx.flatMap fun e =>
      [(indexed "DISK_" e.2 "_NAME", Value.str e.1.device),
        (indexed "DISK_" e.2 "_SIZE", Value.real 6 e.1.size),
        (indexed "DISK_" e.2 "_PERFORMANCE", Value.real 6 e.1.performance)]) =
        loopNames "DISK_" disks.length ["_NAME", "_SIZE", "_PERFORMANCE"] :=
    names_loop disks fun _ => rfl
  unfold diskNames
  rw [List.append_nil, ← hloop]
  rfl

theorem names_nicVariables (nics : List NicData) :
    names (nicVariables nics) = nicNames nics.length := by
  have hloop : names (nics.zipIdx.flatMap fun e =>
      [(indexed "NIC_" e.2 "_NAME", Value.str e.1.name),
        (indexed "NIC_" e.2 "_MAC", Value.str e.1.macaddr),
        (indexed "NIC_" e.2 "_IPADDR", Value.str e.1.ipaddr)]) =
        loopNames "NIC_" nics.length ["_NAME", "_MAC", "_IPADDR"] :=
    names_loop nics fun _ => rfl
  unfold nicNames
  rw [List.append_nil, ← hloop]
  rfl

theorem names_burninVariables (scripts : List BurninScript) :
    names (burninVariables scripts) = burninNames scripts.length := by
  have hloop : names (scripts.zipIdx.flatMap fun e =>
      [(indexed "BURNIN_" e.2 "_NAME", Value.str e.1.name),
        (indexed "BURNIN_" e.2 "_LASTMSG", Value.str e.1.lastMsg),
        (indexed "BURNIN_" e.2 "_RUNNING", Value.int e.1.running),
        (indexed "BURNIN_" e.2 "_PASS_QTY", Value.counter e.1.passCount),
        (indexed "BURNIN_" e.2 "_FAIL_QTY", Value.counter e.1.failCount)]) =
        loopNames "BURNIN_" scripts.length
          ["_NAME", "_LASTMSG", "_RUNNING", "_PASS_QTY", "_FAIL_QTY"] :=
    names_loop scripts fun _ => rfl
  unfold burninNames burninVariables
  rw [names_append, ← hloop]
  rfl

theorem group_benchmarkVariables (b : Benchmarks) :
    Group 6 (names (benchmarkVariables b)) := by
  unfold benchmarkVariables
  split
  · exact (⟨by decide, by decide⟩ : Group 6 benchmarkNames)
  · exact ⟨List.nodup_nil, fun name hin => by cases hin⟩

/-- No two assignments of the stats file have the same name. -/
theorem names_nodup (t : Tables) : (names (statVariables t)).Nodup := by
  have hcpu : Group 0 (cpuNames t.cpuQty) :=
    group_of_loop (by decide) (by decide) (by decide) (by decide) (by decide)
      (by decide) (by decide)
  have hmem : Group 1 memNames := ⟨by decide, by decide⟩
  have htemp : Group 2 (tempNames t.tempData.length) :=
    group_of_loop (by decide) (by decide) (by decide) (by decide) (by decide)
      (by decide) (by decide)
  have hdisk : Group 3 (diskNames t.diskInfo.length) :=
    group_of_loop (by decide) (by decide) (by decide) (by decide) (by decide)
      (by decide) (by decide)
  have hnic : Group 4 (nicNames t.nicData.length) :=
    group_of_loop (by decide) (by decide) (by decide) (by decide) (by decide)
      (by decide) (by decide)
  have hdmi : Group 5 dmiNames := ⟨by decide, by decide⟩
  have hburnin : Group 7 (burninNames t.burninScripts.length) :=
    group_of_loop (by decide) (by decide) (by decide) (by decide) (by decide)
      (by decide) (by decide)
  have hfirst : Before 1 (cpuNames t.cpuQty) :=
    ⟨hcpu.nodup, fun name hin => (hcpu.table name hin) ▸ Nat.zero_lt_one⟩
  have hall := (((((((hfirst.append hmem).append htemp).append hdisk).append
    hnic).append hdmi).append (group_benchmarkVariables t.benchmarks)).append
      hburnin).nodup
  unfold statVariables
  simp only [names_append]
  rw [names_cpuVariables, names_tempVariables, names_diskVariables,
    names_nicVariables, names_burninVariables]
  exact hall

/-!
# What a script finds
-/

theorem valueOf_mem {made : List (CString × CString)}
    (h : (made.map Prod.fst).Nodup) {name text : CString}
    (hmem : (name, text) ∈ made) : valueOf name made = text := by
  induction made using List.reverseRecOn with
  | nil => cases hmem
  | append_singleton made e ih =>
      unfold valueOf
      rw [List.reverse_append, List.reverse_singleton, List.singleton_append]
      rw [List.map_append, List.map_singleton] at h
      rcases List.mem_append.mp hmem with hold | hlast
      · have hne : name ≠ e.1 := by
          intro heq
          have hin : e.1 ∈ made.map Prod.fst :=
            List.mem_map.mpr ⟨(name, text), hold, heq⟩
          exact (List.disjoint_of_nodup_append h) hin List.mem_cons_self
        rw [List.lookup_cons, beq_eq_false_iff_ne.mpr hne]
        exact ih (List.Nodup.of_append_left h) hold
      · rw [← List.mem_singleton.mp hlast, List.lookup_cons, beq_self_eq_true]
        rfl

theorem valueOf_statVariables (t : Tables) {v : Variable}
    (hv : v ∈ statVariables t) :
    valueOf v.1 ((statVariables t).map fun v => (v.1, v.2.printed)) =
      v.2.printed := by
  refine valueOf_mem ?_ (List.mem_map.mpr ⟨v, hv, rfl⟩)
  rw [List.map_map]
  exact names_nodup t

theorem inert_of_all {strings : List CString}
    (h : (strings.all fun s => s.all fun c => !escapable c) = true) :
    forall s, s ∈ strings -> Inert s := by
  intro s hs
  have hquiet := List.all_eq_true.mp (List.all_eq_true.mp h s hs)
  exact inert_of_quiet fun c hc => (Bool.not_eq_true' _).mp (hquiet c hc)

/-- A script that sources the stats file finds in every variable the value that was
printed for it: no assignment hides another. -/
theorem sourced_values {t : Tables} (h : forall s, s ∈ t.strings -> Inert s) :
    exists made, source (dumpStats t) = .ok made ∧
      forall v, v ∈ statVariables t -> valueOf v.1 made = v.2.printed :=
  ⟨_, source_dumpStats h, fun _ hv => valueOf_statVariables t hv⟩

theorem sourced_values_oneTest :
    (forall s, s ∈ (oneTest "Passed, 3 > 2".toList).strings -> Inert s) ∧
      exists made, source (dumpStats (oneTest "Passed, 3 > 2".toList)) =
          .ok made ∧
        forall v, v ∈ statVariables (oneTest "Passed, 3 > 2".toList) ->
          valueOf v.1 made = v.2.printed := by
  have hinert : forall s, s ∈ (oneTest "Passed, 3 > 2".toList).strings ->
      Inert s := inert_of_all (by decide)
  exact ⟨hinert, sourced_values hinert⟩

end Scripts
end Breakin
