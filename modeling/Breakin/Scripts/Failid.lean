import Breakin.Foundation.Numbers
import Breakin.Foundation.Shell
import Breakin.Stats.DumpStats

/-!
# The total of the failures

`dump_stats` adds the failures of all tests up in an `int`, and the script failid
turns the identify light of the chassis on when the total is above zero.
-/

namespace Breakin
namespace Scripts

open Foundation
open Foundation.Shell
open Scheduler
open Stats

/-!
# The script
-/

/-- `chassis identify force` and `chassis identify 1`. -/
inductive Identify where
  | force
  | oneSecond
deriving DecidableEq

/-- `identified` is the history: the requests made to the chassis. -/
structure FailidVars where
  burninTotalFailQty : CString
  identified : List Identify

def FailidVars.unset : FailidVars where
  burninTotalFailQty := []
  identified := []

def totalName : CString := "BURNIN_TOTAL_FAIL_QTY".toList

def valueOf (name : CString) (made : List (CString × CString)) : CString :=
  (made.reverse.lookup name).getD []

theorem valueOf_last (name text : CString)
    (made : List (CString × CString)) :
    valueOf name (made ++ [(name, text)]) = text := by
  simp [valueOf]

def ipmitool (request : Identify) (code : Identify -> UInt8) :
    Command FailidVars :=
  seq (assign fun v => { v with identified := v.identified ++ [request] })
    (external fun _ => code request)

/-- The script; `dat` is what sourcing `breakin.dat` assigns, if it exists, and
`code` the status of `ipmitool`. -/
def failid (dat : Option (List (CString × CString)))
    (code : Identify -> UInt8) : Command FailidVars :=
  block
    [ifThen (fun _ => dat.isSome)
        (assign fun v =>
          { v with burninTotalFailQty := valueOf totalName (dat.getD []) }),
      ifThen (fun s => testGreater s.vars.burninTotalFailQty 0)
        (block
          [ipmitool .force code,
            echo fun _ =>
              "Other tests have errors, turning on ID light and exiting.".toList,
            exit fun _ => 255]),
      ipmitool .oneSecond code,
      ifThen (fun s => s.status != 0)
        (block
          [echo fun _ => "No IPMI on this system.".toList,
            exit fun _ => 255]),
      -- sleep 2
      external fun _ => 0,
      exit fun _ => 0]

def failidEnd (dat : Option (List (CString × CString)))
    (code : Identify -> UInt8) : ShState FailidVars :=
  (failid dat code
    { vars := FailidVars.unset, status := 0, out := [] }).final

def Forces (dat : Option (List (CString × CString)))
    (code : Identify -> UInt8) : Prop :=
  Identify.force ∈ (failidEnd dat code).vars.identified

theorem readDat_eq (dat : Option (List (CString × CString))) :
    ifThen (fun _ => dat.isSome)
        (assign fun v : FailidVars =>
          { v with burninTotalFailQty := valueOf totalName (dat.getD []) })
        { vars := FailidVars.unset, status := 0, out := [] } =
      .next
        { vars :=
            { burninTotalFailQty := valueOf totalName (dat.getD [])
              identified := [] }
          status := 0
          out := [] } := by
  cases dat with
  | none => rfl
  | some made => rfl

/-- The script forces the light when the total is above zero, and otherwise blinks
once, whatever `ipmitool` returns. -/
theorem failidEnd_identified (dat : Option (List (CString × CString)))
    (code : Identify -> UInt8) :
    (failidEnd dat code).vars.identified =
      if testGreater (valueOf totalName (dat.getD [])) 0 = true then [.force]
      else [.oneSecond] := by
  unfold failidEnd failid
  rw [block, seq_of_next (readDat_eq dat)]
  simp only [block, Shell.seq, ifThen, Shell.ifElse, ipmitool, assign,
    external, echo, Shell.exit]
  by_cases hfailed : testGreater (valueOf totalName (dat.getD [])) 0 = true
  · simp only [if_pos hfailed]
    rfl
  · simp only [if_neg hfailed]
    by_cases hmissing : (code .oneSecond != 0) = true
    · simp only [if_pos hmissing]
      rfl
    · simp only [if_neg hmissing]
      rfl

theorem forces_iff (dat : Option (List (CString × CString)))
    (code : Identify -> UInt8) :
    Forces dat code <->
      testGreater (valueOf totalName (dat.getD [])) 0 = true := by
  unfold Forces
  rw [failidEnd_identified]
  split <;> simp_all

/-!
# The sum
-/

def failures (scripts : List BurninScript) : Nat :=
  (scripts.map fun script => script.failCount.toNat).sum

def SomeFailed (scripts : List BurninScript) : Prop :=
  exists script, script ∈ scripts ∧ 0 < script.failCount

theorem someFailed_iff (scripts : List BurninScript) :
    SomeFailed scripts <-> 0 < failures scripts := by
  unfold failures SomeFailed
  rw [List.sum_pos_iff_exists_pos_nat]
  simp only [List.mem_map, UInt64.lt_iff_toNat_lt, UInt64.toNat_zero]
  constructor
  · rintro ⟨script, hin, hpos⟩
    exact ⟨_, ⟨script, hin, rfl⟩, hpos⟩
  · rintro ⟨_, ⟨script, hin, rfl⟩, hpos⟩
    exact ⟨script, hin, hpos⟩

theorem setWidth_signExtend (b : BitVec 32) :
    (b.signExtend 64).setWidth 32 = b := by
  ext i hi
  rw [BitVec.getElem_setWidth, BitVec.getLsbD_signExtend]
  simp only [hi, if_true]
  rw [BitVec.getLsbD_eq_getElem hi]
  simp only [Bool.and_eq_right_iff_imp, decide_eq_true_eq]
  omega

/-- One addition: the sum is taken modulo `2 ^ 64` and narrowed, which is the sum
modulo `2 ^ 32`. -/
theorem addFailed_toInt (total : Int32) (failCount : UInt64) :
    (addFailed total failCount).toInt =
      (total.toInt + failCount.toNat).bmod (2 ^ 32) := by
  have hbits : (addFailed total failCount).toBitVec =
      total.toBitVec + failCount.toBitVec.setWidth 32 := by
    simp [addFailed, setWidth_signExtend]
  rw [← Int32.toInt_toBitVec, hbits, BitVec.toInt_add, BitVec.toInt_setWidth,
    Int32.toInt_toBitVec, Int.add_bmod_bmod, UInt64.toNat_toBitVec]

theorem foldl_addFailed (total : Int32) (scripts : List BurninScript) :
    (scripts.foldl (fun total script => addFailed total script.failCount)
        total).toInt =
      (total.toInt + failures scripts).bmod (2 ^ 32) := by
  induction scripts generalizing total with
  | nil =>
      simp [failures]
  | cons script scripts ih =>
      have hsum : failures (script :: scripts) =
          script.failCount.toNat + failures scripts := rfl
      rw [List.foldl_cons, ih, addFailed_toInt, Int.bmod_add_bmod, hsum,
        Int.add_assoc, Int.natCast_add]

theorem totalFailed_toInt (scripts : List BurninScript) :
    (totalFailed scripts).toInt = (failures scripts : Int).bmod (2 ^ 32) := by
  have hloop := foldl_addFailed 0 scripts
  rw [Int32.toInt_zero, Int.zero_add] at hloop
  exact hloop

/-- The low 32 bits of the sum are a positive `int`. -/
def InRange (scripts : List BurninScript) : Prop :=
  0 < failures scripts % 2 ^ 32 ∧ failures scripts % 2 ^ 32 < 2 ^ 31

theorem totalFailed_pos_iff (scripts : List BurninScript) :
    0 < (totalFailed scripts).toInt <-> InRange scripts := by
  rw [totalFailed_toInt, Int.bmod_def]
  unfold InRange
  omega

theorem inRange_someFailed {scripts : List BurninScript}
    (h : InRange scripts) : SomeFailed scripts := by
  rw [someFailed_iff]
  exact Nat.pos_of_ne_zero fun hzero => by
    have hpos := h.left
    rw [hzero] at hpos
    exact absurd hpos (by decide)

/-!
# What failid makes of it
-/

/-- The total is positive when some test has failed, and so is the light on: in
every shell in which the variable has the text that was written. -/
structure TellsFailures (scripts : List BurninScript) : Prop where
  written : 0 < (totalFailed scripts).toInt <-> SomeFailed scripts
  light : forall made code,
    valueOf totalName made = printInt (totalFailed scripts).toInt ->
      (Forces (some made) code <-> SomeFailed scripts)

theorem clampLong_int32 (n : Int32) : clampLong n.toInt = n.toInt := by
  have hlow := n.le_toInt
  have hhigh := n.toInt_lt
  unfold clampLong
  omega

/-- In the shell that sources the file of `dump_stats`, the variable has that text
when every string of the tables is inert: the total is the last assignment. -/
theorem dumpStats_total {t : Tables} (h : forall s, s ∈ t.strings -> Inert s) :
    exists made, source (dumpStats t) = .ok made ∧
      valueOf totalName made =
        printInt (totalFailed t.burninScripts).toInt := by
  have hlast : exists front, statVariables t =
      front ++ [(totalName, .int (totalFailed t.burninScripts).toInt)] :=
    ⟨_, (List.append_assoc ..).symm⟩
  rcases hlast with ⟨front, hfront⟩
  refine ⟨_, source_dumpStats h, ?_⟩
  rw [hfront, List.map_append]
  exact valueOf_last ..

theorem forces_written_iff {scripts : List BurninScript}
    {made : List (CString × CString)} (code : Identify -> UInt8)
    (h : valueOf totalName made = printInt (totalFailed scripts).toInt) :
    Forces (some made) code <-> 0 < (totalFailed scripts).toInt := by
  rw [forces_iff, Option.getD_some, h]
  exact testGreater_printInt (clampLong_int32 _) 0

theorem tellsFailures_iff_written (scripts : List BurninScript) :
    TellsFailures scripts <->
      (0 < (totalFailed scripts).toInt <-> SomeFailed scripts) :=
  ⟨TellsFailures.written, fun hwritten =>
    ⟨hwritten, fun _ code hvalue =>
      (forces_written_iff code hvalue).trans hwritten⟩⟩

/-- The total tells the truth as long as nothing has failed or the sum of all
counters is, modulo `2 ^ 32`, a positive `int`. -/
theorem tellsFailures_iff (scripts : List BurninScript) :
    TellsFailures scripts <-> ¬ SomeFailed scripts ∨ InRange scripts := by
  rw [tellsFailures_iff_written, totalFailed_pos_iff]
  constructor
  · intro hiff
    rcases Classical.em (SomeFailed scripts) with hfailed | hnone
    · exact Or.inr (hiff.mpr hfailed)
    · exact Or.inl hnone
  · rintro (hnone | hrange)
    · exact ⟨inRange_someFailed, fun hfailed => absurd hfailed hnone⟩
    · exact ⟨inRange_someFailed, fun _ => hrange⟩

/-- A test that has failed so often that the total is zero again, and two that make
it negative. -/
theorem wrappedTotal_not_tells :
    ¬ TellsFailures
      [{ BurninScript.found "hpl".toList with failCount := 4294967296 }] ∧
    ¬ TellsFailures
      [{ BurninScript.found "hpl".toList with failCount := 2147483647 },
        { BurninScript.found "ecc".toList with failCount := 1 }] := by
  simp only [tellsFailures_iff_written]
  constructor
  · intro hiff
    exact absurd (hiff.mpr ⟨_, List.mem_singleton.mpr rfl, by decide⟩)
      (by decide)
  · intro hiff
    exact absurd (hiff.mpr ⟨_, List.mem_cons_self .., by decide⟩) (by decide)

end Scripts
end Breakin
