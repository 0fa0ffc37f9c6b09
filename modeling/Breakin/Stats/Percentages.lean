import Mathlib.Algebra.Order.Field.Rat
import Mathlib.Tactic.Linarith
import Breakin.Stats.CpuUsage
import Breakin.Stats.Sensors

/-!
# Percentages

`get_cpu_usage` divides by the ticks that a CPU has counted since the last poll,
and `get_mem_usage` by the totals it reads from `/proc/meminfo`.  Neither looks
at its divisor.
-/

namespace Breakin
namespace Stats

open Foundation

/-- `mem_info`; the percentages are exact, and `none` where the code divides by
zero. -/
structure MemSlot where
  memTotal : Int
  memFree : Int
  memPercent : Option Rat
  swapTotal : Int
  swapFree : Int
  swapPercent : Option Rat
deriving DecidableEq

/-- `sscanf(buf, "%*s %ld %*s", &value)`; a line whose second word is not a number
leaves the value as it was. -/
def scanSecond (buf : CString) (value : Int) : Int :=
  let second := (buf.dropWhile isSpace).dropWhile fun c => !isSpace c
  match integerAt (second.dropWhile isSpace) with
  | none => value
  | some n => clampLong n

def memLine (m : MemSlot) (line : List Char) : MemSlot :=
  let buf := cstr line
  if startsWith "MemTotal".toList buf then
    { m with memTotal := scanSecond buf m.memTotal }
  else if startsWith "MemFree".toList buf then
    { m with memFree := scanSecond buf m.memFree }
  else if startsWith "SwapTotal".toList buf then
    { m with swapTotal := scanSecond buf m.swapTotal }
  else if startsWith "SwapFree".toList buf then
    { m with swapFree := scanSecond buf m.swapFree }
  else m

/-- `((double) (total - free) / total) * 100` -/
def usedPercent (total free : Int) : Option Rat :=
  if total = 0 then none
  else some (((total - free : Int) : Rat) / (total : Rat) * 100)

def readMemInfo (content : List Char) (m : MemSlot) : MemSlot :=
  (linesRead (some content)).foldl memLine m

/-- `mem_info` after the call; the file is `none` when it cannot be opened. -/
def getMemUsage (file : Option (List Char)) (m : MemSlot) : MemSlot :=
  match file with
  | none => m
  | some content =>
      let read := readMemInfo content m
      { read with
        memPercent := usedPercent read.memTotal read.memFree
        swapPercent := usedPercent read.swapTotal read.swapFree }

/-!
# One division
-/

def IsPercentage (p : Option Rat) : Prop :=
  exists q, p = some q ∧ 0 ≤ q ∧ q ≤ 100

theorem not_isPercentage_none : ¬ IsPercentage none := by
  rintro ⟨q, hq, _⟩
  cases hq

theorem isPercentage_share {part total : Rat} (htotal : 0 < total) :
    IsPercentage (some (part / total * 100)) <-> 0 ≤ part ∧ part ≤ total := by
  constructor
  · rintro ⟨q, hq, hlow, hhigh⟩
    cases hq
    constructor
    · have hshare : 0 ≤ part / total := by linarith
      have hpart := mul_nonneg hshare htotal.le
      rwa [div_mul_cancel₀ part htotal.ne'] at hpart
    · have hshare : part / total ≤ 1 := by linarith
      exact (div_le_one₀ htotal).mp hshare
  · rintro ⟨hlow, hhigh⟩
    have hshare := div_nonneg hlow htotal.le
    have hone := (div_le_one₀ htotal).mpr hhigh
    exact ⟨_, rfl, by linarith, by linarith⟩

/-- How far a counter of 32 bits has come since it was `last`. -/
def elapsed (last : UInt32) (now : Nat) : Nat :=
  (now + 2 ^ 32 - last.toNat) % 2 ^ 32

theorem elapsed_eq (last : UInt32) (now : Nat) :
    (UInt32.ofNat now - last).toNat = elapsed last now := by
  have hlast := last.toNat_lt
  unfold elapsed
  rw [UInt32.toNat_sub, UInt32.toNat_ofNat']
  omega

/-- The counters of the line have moved, and together by less than their sum of 32
bits can tell. -/
def LineAdvances (line : CpuLine) (slot : CpuSlot) : Prop :=
  let ticks := elapsed slot.lastIdle line.idle.toNat +
    elapsed slot.lastUsage line.usage
  0 < ticks ∧ ticks < 2 ^ 32

theorem percentOf_iff (t : CpuTimes) :
    IsPercentage (percentOf t) <->
      0 < t.idle.toNat + t.used.toNat ∧
        t.idle.toNat + t.used.toNat < 2 ^ 32 := by
  have hidle := t.idle.toNat_lt
  have hused := t.used.toNat_lt
  have htotal : (t.idle + t.used).toNat =
      (t.idle.toNat + t.used.toNat) % 2 ^ 32 := UInt32.toNat_add ..
  unfold percentOf
  by_cases hzero : t.idle + t.used = 0
  · have hmod : (t.idle.toNat + t.used.toNat) % 2 ^ 32 = 0 := by
      rw [← htotal, hzero]
      rfl
    rw [if_pos hzero]
    constructor
    · intro h
      exact absurd h not_isPercentage_none
    · rintro ⟨hpos, hlt⟩
      omega
  · have hpos : 0 < (t.idle + t.used).toNat := by
      apply Nat.pos_of_ne_zero
      intro h
      exact hzero (UInt32.toNat_inj.mp h)
    rw [if_neg hzero, isPercentage_share (by exact_mod_cast hpos),
      Nat.cast_le]
    constructor
    · rintro ⟨_, hle⟩
      omega
    · rintro ⟨_, hlt⟩
      exact ⟨by positivity, by omega⟩

theorem writeCpu_percent_iff (line : CpuLine) (slot : CpuSlot) :
    IsPercentage (writeCpu line slot).percent <-> LineAdvances line slot := by
  have hidle : (timesOf line slot).idle.toNat =
      elapsed slot.lastIdle line.idle.toNat := by
    rw [← elapsed_eq, ← idleRead_eq]
    rfl
  have hused : (timesOf line slot).used.toNat =
      elapsed slot.lastUsage line.usage := by
    rw [← elapsed_eq, ← usageRead_eq]
    rfl
  show IsPercentage (percentOf (timesOf line slot)) <-> _
  rw [percentOf_iff, hidle, hused]
  rfl

/-- There is a total, and what is free is not below nothing, or is all of it. -/
def HasTotal (total free : Int) : Prop :=
  total ≠ 0 ∧ (0 ≤ free ∨ free = total)

theorem usedPercent_iff {total free : Int} (hfree : free ≤ total) :
    IsPercentage (usedPercent total free) <-> HasTotal total free := by
  unfold usedPercent HasTotal
  rcases lt_trichotomy total 0 with hneg | hzero | hpos
  · rw [if_neg hneg.ne]
    have hturn : ((total - free : Int) : Rat) / (total : Rat) =
        ((free - total : Int) : Rat) / ((-total : Int) : Rat) := by
      push_cast
      rw [← neg_div_neg_eq, neg_sub]
    have hturned : (0 : Rat) < ((-total : Int) : Rat) := by
      exact_mod_cast neg_pos.mpr hneg
    rw [hturn, isPercentage_share hturned, Int.cast_nonneg_iff, Int.cast_le]
    omega
  · rw [if_pos hzero]
    constructor
    · intro h
      exact absurd h not_isPercentage_none
    · rintro ⟨hne, _⟩
      exact absurd hzero hne
  · rw [if_neg hpos.ne', isPercentage_share (by exact_mod_cast hpos),
      Int.cast_nonneg_iff, Int.cast_le]
    omega

/-!
# A sequence of polls
-/

structure UsageState where
  cpuQty : Nat
  cpus : List CpuSlot
  mem : MemSlot
deriving DecidableEq

inductive Poll where
  | stat (snapshot : Option (List CpuLine))
  | meminfo (file : Option (List Char))
deriving DecidableEq

def FreeWithin (m : MemSlot) : Prop :=
  m.memFree ≤ m.memTotal ∧ m.swapFree ≤ m.swapTotal

instance (m : MemSlot) : Decidable (FreeWithin m) :=
  inferInstanceAs (Decidable (_ ∧ _))

def usageStep (s : UsageState) : Poll -> Option UsageState
  | .stat snapshot =>
      (getCpuUsage snapshot s.cpuQty s.cpus).map fun r =>
        { s with cpuQty := r.1, cpus := r.2.1 }
  | .meminfo file =>
      let mem := getMemUsage file s.mem
      if FreeWithin mem then some { s with mem := mem } else none

def usageStart : UsageState where
  cpuQty := 0
  cpus := List.replicate MAX_CPUS zeroCpu
  mem :=
    { memTotal := 0
      memFree := 0
      memPercent := some 0
      swapTotal := 0
      swapFree := 0
      swapPercent := some 0 }

structure Percentages (s : UsageState) : Prop where
  cpus : forall slot, slot ∈ s.cpus -> IsPercentage slot.percent
  mem : IsPercentage s.mem.memPercent
  swap : IsPercentage s.mem.swapPercent

/-- What a poll has to find: counters that have moved, but not too far, and totals
of memory and swap. -/
def PollMeasures (s : UsageState) : Poll -> Prop
  | .stat none => True
  | .stat (some lines) =>
      forall (k : Nat) (line : CpuLine) (slot : CpuSlot),
        (lines.take MAX_CPUS)[k]? = some line -> s.cpus[k]? = some slot ->
          LineAdvances line slot
  | .meminfo none => True
  | .meminfo (some content) =>
      let read := readMemInfo content s.mem
      FreeWithin read ->
        HasTotal read.memTotal read.memFree ∧
          HasTotal read.swapTotal read.swapFree

theorem usageStep_size {s t : UsageState} {poll : Poll}
    (hsize : s.cpus.length = MAX_CPUS) (hstep : usageStep s poll = some t) :
    t.cpus.length = MAX_CPUS := by
  cases poll with
  | stat snapshot =>
      cases snapshot with
      | none =>
          cases hstep
          exact hsize
      | some lines =>
          rcases getCpuUsage_some lines s.cpuQty hsize
            with ⟨cpus, hcall, hlength, _⟩
          rw [usageStep, hcall] at hstep
          cases hstep
          exact hlength
  | meminfo file =>
      simp only [usageStep] at hstep
      split at hstep
      · cases hstep
        exact hsize
      · cases hstep

/-- The lines polled decide about the slots they are written into, and the other
slots keep what they have. -/
theorem stat_percentages_iff {s : UsageState} {lines : List CpuLine}
    (hsize : s.cpus.length = MAX_CPUS) (hs : Percentages s) :
    PollMeasures s (.stat (some lines)) <->
      forall t, usageStep s (.stat (some lines)) = some t ->
        Percentages t := by
  rcases getCpuUsage_some lines s.cpuQty hsize
    with ⟨cpus, hcall, _, hslots⟩
  have hstep : usageStep s (.stat (some lines)) =
      some { s with cpuQty := (lines.take MAX_CPUS).length, cpus := cpus } := by
    rw [usageStep, hcall]
    rfl
  rw [hstep]
  constructor
  · intro hmeasures t ht
    cases ht
    refine ⟨?_, hs.mem, hs.swap⟩
    intro slot hin
    rcases List.mem_iff_getElem?.mp hin with ⟨k, hk⟩
    rw [hslots k] at hk
    cases hline : (lines.take MAX_CPUS)[k]? with
    | none =>
        rw [hline] at hk
        exact hs.cpus slot (List.mem_of_getElem? hk)
    | some line =>
        rw [hline] at hk
        rcases Option.map_eq_some_iff.mp hk with ⟨old, hold, hwrite⟩
        rw [← hwrite]
        exact (writeCpu_percent_iff line old).mpr
          (hmeasures k line old hline hold)
  · intro hall k line slot hline hslot
    have hk : cpus[k]? = some (writeCpu line slot) := by
      rw [hslots k, hline, hslot]
      rfl
    exact (writeCpu_percent_iff line slot).mp
      ((hall _ rfl).cpus _ (List.mem_of_getElem? hk))

theorem meminfo_percentages_iff {s : UsageState} {content : List Char}
    (hs : Percentages s) :
    PollMeasures s (.meminfo (some content)) <->
      forall t, usageStep s (.meminfo (some content)) = some t ->
        Percentages t := by
  simp only [PollMeasures, usageStep]
  by_cases hfree : FreeWithin (readMemInfo content s.mem)
  · have hcall : FreeWithin (getMemUsage (some content) s.mem) := hfree
    rw [if_pos hcall, ← usedPercent_iff hfree.left,
      ← usedPercent_iff hfree.right]
    constructor
    · intro hmeasures t ht
      cases ht
      exact ⟨hs.cpus, (hmeasures hfree).left, (hmeasures hfree).right⟩
    · intro hall _
      exact ⟨(hall _ rfl).mem, (hall _ rfl).swap⟩
  · have hcall : ¬ FreeWithin (getMemUsage (some content) s.mem) := hfree
    rw [if_neg hcall]
    constructor
    · intro _ t ht
      cases ht
    · intro _ h
      exact absurd h hfree

theorem pollMeasures_iff {s : UsageState} (poll : Poll)
    (hsize : s.cpus.length = MAX_CPUS) (hs : Percentages s) :
    PollMeasures s poll <->
      forall t, usageStep s poll = some t -> Percentages t := by
  cases poll with
  | stat snapshot =>
      cases snapshot with
      | none =>
          constructor
          · intro _ t ht
            cases ht
            exact hs
          · intro _
            trivial
      | some lines => exact stat_percentages_iff hsize hs
  | meminfo file =>
      cases file with
      | none =>
          constructor
          · intro _ t ht
            simp only [usageStep] at ht
            split at ht
            · cases ht
              exact hs
            · cases ht
          · intro _
            trivial
      | some content => exact meminfo_percentages_iff hs

theorem usageStart_percentages : Percentages usageStart := by
  have hzero : IsPercentage (some 0) := ⟨0, rfl, by norm_num, by norm_num⟩
  refine ⟨?_, hzero, hzero⟩
  intro slot hin
  rw [List.eq_of_mem_replicate hin]
  exact hzero

/-- All percentages are defined and between 0 and 100 along a run exactly when
every poll of it finds counters that have moved, but not too far, and totals of
memory and swap. -/
theorem percentages_iff (polls : List Poll) :
    Along usageStep usageStart polls Percentages <->
      StepsMeet usageStep usageStart polls PollMeasures :=
  along_iff_stepsMeet (I := fun s => s.cpus.length = MAX_CPUS)
    (fun _ _ _ hsize hstep => usageStep_size hsize hstep)
    (fun _ poll hsize hs => pollMeasures_iff poll hsize hs)
    List.length_replicate usageStart_percentages

def noSwap : Poll :=
  .meminfo (some ("MemTotal: 8 kB\nMemFree: 4 kB\n" ++
    "SwapTotal: 0 kB\nSwapFree: 0 kB\n").toList)

theorem noSwap_not_percentages :
    ¬ Along usageStep usageStart [noSwap] Percentages := by
  intro halong
  have hswap := (halong [noSwap] [] _ rfl rfl).swap
  exact not_isPercentage_none hswap

end Stats
end Breakin
