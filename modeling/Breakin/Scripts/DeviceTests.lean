import Breakin.Foundation.Printf
import Breakin.Foundation.Shell
import Breakin.Scheduler.Accounting

/-!
# The device tests

The test scripts for disks and memory controllers: each walks over its devices,
notes in `FOUND_ERROR` that one had an error, and ends with the status its last
command happens to give, or with that flag.
-/

namespace Breakin
namespace Scripts

open Foundation
open Foundation.Shell

/-- What `breakin.dat` says about the disks, and what the checks of a drive
return, by its name. -/
structure Disks where
  qty : Nat
  name : Nat -> CString
  smartctl : CString -> UInt8
  badblocks : CString -> UInt8

structure DiskVars where
  foundError : Nat
  driveName : CString
  errcode : UInt8

def DiskVars.unset : DiskVars where
  foundError := 0
  driveName := []
  errcode := 0

def noDisks (d : Disks) : Command DiskVars :=
  ifThen (fun _ => decide (d.qty ≤ 0))
    (block [echo fun _ => "MSG: No disk devices found".toList,
      exit fun _ => 255])

def hdhealthTurn (d : Disks) (i : Nat) : Command DiskVars :=
  block
    [assign fun v => { v with driveName := d.name i },
      external fun v => d.smartctl v.driveName,
      capture fun v status => { v with errcode := status },
      ifElse (fun s => s.vars.errcode == 4)
        (assign fun v => { v with foundError := 0 })
        (ifThen (fun s => s.vars.errcode != 0)
          (block
            [echo fun v => "SMART errors on ".toList ++ v.driveName,
              assign fun v => { v with foundError := 1 }]))]

def hdhealth (d : Disks) : Command DiskVars :=
  block
    [assign fun v => { v with foundError := 0 },
      noDisks d,
      whileBelow d.qty (hdhealthTurn d),
      ifThen (fun s => s.vars.foundError == 0)
        (echo fun _ => "MSG: Temps ".toList),
      -- sleep 10
      external fun _ => 0]

def badblocksTurn (d : Disks) (i : Nat) : Command DiskVars :=
  block
    [assign fun v => { v with driveName := d.name i },
      external fun v => d.badblocks v.driveName,
      ifThen (fun s => s.status != 0)
        (block
          [echo fun v =>
              "Disk drive check failed on device ".toList ++ v.driveName,
            assign fun v => { v with foundError := 1 }])]

def badblocks (d : Disks) : Command DiskVars :=
  block
    [assign fun v => { v with foundError := 0 },
      noDisks d,
      whileBelow d.qty (badblocksTurn d),
      ifThen (fun s => s.vars.foundError == 0)
        (echo fun _ => "MSG: No disk errors found".toList)]

/-!
# ECC
-/

structure Counts where
  ce : Nat
  ue : Nat

structure Controller where
  counts : Counts
  csrow : Nat -> Option Counts

/-- The directories `mcN` below `/sys/devices/system/edac/mc`. -/
abbrev Edac := Nat -> Option Controller

def Counts.total (c : Counts) : Nat :=
  c.ce + c.ue

/-- The entries a pattern that ends in `?` matches: one more character. -/
def glob {entry : Type} (dir : Nat -> Option entry) : List (Nat × entry) :=
  (List.range 10).filterMap fun n => (dir n).map fun e => (n, e)

structure EccVars where
  foundError : Nat
  errCount : Nat
  errorString : List Char

def EccVars.unset : EccVars where
  foundError := 0
  errCount := 0
  errorString := []

def rowReport (n : Nat) (row : List Char) (count : List Char) : List Char :=
  "mc".toList ++ decimal n ++ ":csrow".toList ++ row ++
    " error counter at".toList ++ count

def eccRows (n : Nat) (c : Controller) : Command EccVars :=
  match glob c.csrow with
  | [] => echo fun _ => rowReport n ['?'] []
  | rows =>
      forEach rows fun row =>
        block
          [assign fun v => { v with errCount := row.2.total },
            assign fun v =>
              { v with errorString :=
                  rowReport n (decimal row.1) (' ' :: decimal v.errCount) },
            echo fun v => v.errorString]

def eccTurn (mc : Nat × Controller) : Command EccVars :=
  block
    [assign fun v => { v with errCount := mc.2.counts.total },
      ifThen (fun s => decide (0 < s.vars.errCount))
        (block
          [assign fun v => { v with foundError := 1 },
            eccRows mc.1 mc.2])]

def ecc (dir : Edac) : Command EccVars :=
  block
    [ifThen (fun _ => (dir 0).isNone)
        (block
          [echo fun _ =>
              "MSG: No support for ECC checking on this system".toList,
            exit fun _ => 255]),
      assign fun v => { v with foundError := 0 },
      assign fun v => { v with errorString := [] },
      forEach (glob dir) eccTurn,
      -- sleep 10
      external fun _ => 0,
      ifThen (fun s => s.vars.foundError == 0)
        (echo fun _ => "MSG: No ECC errors found".toList),
      exit fun v => UInt8.ofNat v.foundError]

/-!
# Verdicts
-/

def verdict {vars : Type} (script : Command vars) (v : vars) : UInt8 :=
  (script { vars := v, status := 0, out := [] }).exitStatus

def Fails (code : UInt8) : Prop :=
  Scheduler.fails (.exited code) = true

instance : DecidablePred Fails := fun code =>
  inferInstanceAs (Decidable (Scheduler.fails (.exited code) = true))

theorem verdict_of_keeps {vars : Type} {script : Command vars} {code : UInt8}
    (h : Keeps (fun _ => True) script fun s => s.status = code) (v : vars) :
    verdict script v = code := by
  rcases h { vars := v, status := 0, out := [] } trivial with ⟨t, ht, hcode⟩
  unfold verdict
  rw [ht]
  exact hcode

/-!
# The disk tests never fail
-/

theorem noDisks_goesOn {d : Disks} (h : 0 < d.qty) : GoesOn (noDisks d) := by
  refine Keeps.ifThen ?_ fun _ _ _ => trivial
  intro s hs
  have hzero : d.qty ≤ 0 := of_decide_eq_true hs.right
  omega

theorem hdhealthTurn_goesOn (d : Disks) (i : Nat) : GoesOn (hdhealthTurn d i) := by
  have hreport : GoesOn (block
      [echo fun v : DiskVars => "SMART errors on ".toList ++ v.driveName,
        assign fun v => { v with foundError := 1 }]) :=
    goesOn_cons (goesOn_echo _) (goesOn_cons (goesOn_assign _) goesOn_nil)
  exact goesOn_cons (goesOn_assign _) (goesOn_cons (goesOn_external _)
    (goesOn_cons (goesOn_capture _) (goesOn_cons
      (goesOn_ifElse (goesOn_assign _) (goesOn_ifThen hreport)) goesOn_nil)))

theorem badblocksTurn_goesOn (d : Disks) (i : Nat) :
    GoesOn (badblocksTurn d i) := by
  have hreport : GoesOn (block
      [echo fun v : DiskVars =>
          "Disk drive check failed on device ".toList ++ v.driveName,
        assign fun v => { v with foundError := 1 }]) :=
    goesOn_cons (goesOn_echo _) (goesOn_cons (goesOn_assign _) goesOn_nil)
  exact goesOn_cons (goesOn_assign _) (goesOn_cons (goesOn_external _)
    (goesOn_cons (goesOn_ifThen hreport) goesOn_nil))

/-- hdhealth ends with `sleep`, whose status is its verdict. -/
theorem hdhealth_verdict {d : Disks} (h : 0 < d.qty) (v : DiskVars) :
    verdict (hdhealth d) v = 0 := by
  apply verdict_of_keeps
  refine keeps_block_cons (goesOn_assign _) ?_
  refine keeps_block_cons (noDisks_goesOn h) ?_
  refine keeps_block_cons (goesOn_whileBelow _ (hdhealthTurn_goesOn d)) ?_
  refine keeps_block_cons (goesOn_ifThen (goesOn_echo _)) ?_
  exact keeps_block_cons (keeps_external fun _ _ => rfl) keeps_block_nil

/-- badblocks ends with an `if`, whose status is 0 on both sides. -/
theorem badblocks_verdict {d : Disks} (h : 0 < d.qty) (v : DiskVars) :
    verdict (badblocks d) v = 0 := by
  apply verdict_of_keeps
  refine keeps_block_cons (goesOn_assign _) ?_
  refine keeps_block_cons (noDisks_goesOn h) ?_
  refine keeps_block_cons (goesOn_whileBelow _ (badblocksTurn_goesOn d)) ?_
  refine keeps_block_cons ?_ keeps_block_nil
  exact Keeps.ifThen (keeps_echo fun _ _ => rfl) fun _ _ _ => rfl

/-!
# ECC reports the controllers it sees
-/

def Controller.bad (c : Controller) : Bool :=
  decide (0 < c.counts.total)

def anyBad (mcs : List (Nat × Controller)) : Bool :=
  mcs.any fun mc => mc.2.bad

def Flagged (mcs : List (Nat × Controller)) (s : ShState EccVars) : Prop :=
  s.vars.foundError = if anyBad mcs then 1 else 0

theorem eccRows_keeps (n : Nat) (c : Controller) :
    Keeps (fun s => s.vars.foundError = 1) (eccRows n c)
      fun s => s.vars.foundError = 1 := by
  unfold eccRows
  split
  · exact keeps_echo fun _ hs => hs
  · refine forEach_keeps
      (R := fun _ (s : ShState EccVars) => s.vars.foundError = 1)
      (fun _ hs => hs) ?_
    intro _ row
    refine keeps_block_cons (Q := fun s => s.vars.foundError = 1)
      (keeps_assign fun _ hs => hs) ?_
    refine keeps_block_cons (Q := fun s => s.vars.foundError = 1)
      (keeps_assign fun _ hs => hs) ?_
    exact keeps_block_cons (keeps_echo fun _ hs => hs) keeps_block_nil

theorem eccTurn_keeps (before : List (Nat × Controller))
    (mc : Nat × Controller) :
    Keeps (Flagged before) (eccTurn mc) (Flagged (before ++ [mc])) := by
  have happend : anyBad (before ++ [mc]) = (anyBad before || mc.2.bad) := by
    simp [anyBad]
  refine keeps_block_cons (Q := fun s =>
    Flagged before s ∧ s.vars.errCount = mc.2.counts.total)
    (keeps_assign fun s hs => ⟨hs, rfl⟩) ?_
  refine keeps_block_cons (Keeps.ifThen ?_ ?_) keeps_block_nil
  · have hset : Keeps
        (fun s => (Flagged before s ∧ s.vars.errCount = mc.2.counts.total) ∧
          decide (0 < s.vars.errCount) = true)
        (assign fun v => { v with foundError := 1 })
        (fun s : ShState EccVars =>
          s.vars.foundError = 1 ∧ mc.2.bad = true) := by
      refine keeps_assign fun s hs => ⟨rfl, ?_⟩
      unfold Controller.bad
      rw [← hs.left.right]
      exact hs.right
    refine keeps_block_cons hset (keeps_block_cons ?_ keeps_block_nil)
    intro s hs
    rcases eccRows_keeps mc.1 mc.2 s hs.left with ⟨t, ht, hflag⟩
    refine ⟨t, ht, ?_⟩
    unfold Flagged
    rw [hflag, happend, hs.right]
    simp
  · intro s hs hzero
    have hgood : mc.2.bad = false := by
      unfold Controller.bad
      rw [← hs.right]
      exact hzero
    unfold Flagged
    rw [happend, hgood, Bool.or_false]
    exact hs.left

theorem ecc_unsupported {dir : Edac} (h : dir 0 = none) (v : EccVars) :
    verdict (ecc dir) v = 255 := by
  simp [verdict, ecc, block, Shell.seq, ifThen, Shell.ifElse, h, echo,
    Shell.exit, Flow.exitStatus]

theorem ecc_verdict {dir : Edac} (h : (dir 0).isSome = true) (v : EccVars) :
    verdict (ecc dir) v = if anyBad (glob dir) then 1 else 0 := by
  have hbody : Keeps (fun _ => True)
      (block
        [ifThen (fun _ => (dir 0).isNone)
            (block
              [echo fun _ =>
                  "MSG: No support for ECC checking on this system".toList,
                exit fun _ => 255]),
          assign fun v => { v with foundError := 0 },
          assign fun v => { v with errorString := [] },
          forEach (glob dir) eccTurn,
          external fun _ => 0,
          ifThen (fun s => s.vars.foundError == 0)
            (echo fun _ => "MSG: No ECC errors found".toList)])
      (Flagged (glob dir)) := by
    refine keeps_block_cons (Q := fun _ => True) (Keeps.ifThen ?_ ?_) ?_
    · intro s hs
      rw [Option.isNone_iff_eq_none.mp hs.right] at h
      cases h
    · intro _ _ _
      trivial
    refine keeps_block_cons (Q := Flagged []) (keeps_assign fun _ _ => rfl) ?_
    refine keeps_block_cons (Q := Flagged []) (keeps_assign fun _ hs => hs) ?_
    refine keeps_block_cons
      (forEach_keeps (fun _ hs => hs) eccTurn_keeps) ?_
    refine keeps_block_cons (Q := Flagged (glob dir))
      (keeps_external fun _ hs => hs) ?_
    refine keeps_block_cons ?_ keeps_block_nil
    exact Keeps.ifThen (keeps_echo fun _ hs => hs.left) fun _ hs _ => hs
  rcases block_exit (fun v => UInt8.ofNat v.foundError) hbody
    { vars := v, status := 0, out := [] } with ⟨t, hflag, hexit⟩
  have hverdict : verdict (ecc dir) v = UInt8.ofNat t.vars.foundError := hexit
  rw [hverdict, hflag]
  split <;> rfl

/-- What the loop sees of a controller with errors: its one-digit name. -/
theorem anyBad_glob (dir : Edac) :
    anyBad (glob dir) = true <->
      exists n c, n < 10 ∧ dir n = some c ∧ c.bad = true := by
  unfold anyBad glob
  simp only [List.any_eq_true, List.mem_filterMap, List.mem_range,
    Option.map_eq_some_iff]
  constructor
  · rintro ⟨mc, ⟨n, hn, c, hc, heq⟩, hbad⟩
    rw [← heq] at hbad
    exact ⟨n, c, hn, hc, hbad⟩
  · rintro ⟨n, c, hn, hc, hbad⟩
    exact ⟨(n, c), ⟨n, hn, c, hc, rfl⟩, hbad⟩

/-!
# When a device test tells of its errors
-/

def SmartError (d : Disks) (i : Nat) : Prop :=
  d.smartctl (d.name i) ≠ 0 ∧ d.smartctl (d.name i) ≠ 4

def BadDisk (d : Disks) (i : Nat) : Prop :=
  d.badblocks (d.name i) ≠ 0

def EccError (dir : Edac) (n : Nat) : Prop :=
  exists c, dir n = some c ∧ 0 < c.counts.ce + c.counts.ue

theorem deviceTests_fail_iff (d : Disks) (v : DiskVars) (dir : Edac)
    (u : EccVars) (hqty : 0 < d.qty) :
    ((Fails (verdict (hdhealth d) v) <->
        exists i, i < d.qty ∧ SmartError d i) <->
      forall i, i < d.qty -> ¬ SmartError d i) ∧
    ((Fails (verdict (badblocks d) v) <->
        exists i, i < d.qty ∧ BadDisk d i) <->
      forall i, i < d.qty -> ¬ BadDisk d i) ∧
    ((Fails (verdict (ecc dir) u) <-> exists n, EccError dir n) <->
      ((exists n, EccError dir n) ->
        (dir 0).isSome = true ∧ exists n, n < 10 ∧ EccError dir n)) := by
  have hpass : forall {p : Nat -> Prop} {n : Nat} {code : UInt8}, code = 0 ->
      ((Fails code <-> exists i, i < n ∧ p i) <->
        forall i, i < n -> ¬ p i) := by
    intro p n code hcode
    have hnot : ¬ Fails code := by
      rw [hcode]
      intro hfails
      cases hfails
    constructor
    · intro h i hi hp
      exact hnot (h.mpr ⟨i, hi, hp⟩)
    · intro h
      exact ⟨fun hf => absurd hf hnot, fun ⟨i, hi, hp⟩ => absurd hp (h i hi)⟩
  refine ⟨hpass (hdhealth_verdict hqty v), hpass (badblocks_verdict hqty v), ?_⟩
  have hfails : Fails (verdict (ecc dir) u) <->
      (dir 0).isSome = true ∧ exists n, n < 10 ∧ EccError dir n := by
    cases hdir : dir 0 with
    | none =>
        rw [ecc_unsupported hdir]
        constructor
        · intro hf
          cases hf
        · intro h
          cases h.left
    | some c0 =>
        rw [ecc_verdict (by rw [hdir]; rfl)]
        have hseen : (exists n, n < 10 ∧ EccError dir n) <->
            anyBad (glob dir) = true := by
          rw [anyBad_glob]
          constructor
          · rintro ⟨n, hn, c, hc, hpos⟩
            exact ⟨n, c, hn, hc, decide_eq_true hpos⟩
          · rintro ⟨n, c, hn, hc, hbad⟩
            exact ⟨n, hn, c, hc, of_decide_eq_true hbad⟩
        rw [hseen]
        cases anyBad (glob dir) <;> simp [Fails, Scheduler.fails]
  rw [hfails]
  constructor
  · exact fun h => h.mpr
  · intro h
    exact ⟨fun hseen => hseen.right.elim fun n hn => ⟨n, hn.right⟩, h⟩

def sdNames (i : Nat) : CString :=
  if i = 0 then "sda".toList else "sdb".toList

def twoGoodDisks : Disks where
  qty := 2
  name := sdNames
  smartctl := fun _ => 0
  badblocks := fun _ => 0

def oneController : Edac := fun n =>
  if n = 0 then
    some
      { counts := { ce := 1, ue := 0 }
        csrow := fun _ => none }
  else
    none

theorem deviceTests_twoGoodDisks :
    0 < twoGoodDisks.qty ∧
    ((Fails (verdict (hdhealth twoGoodDisks) DiskVars.unset) <->
        exists i, i < 2 ∧ SmartError twoGoodDisks i) <->
      forall i, i < 2 -> ¬ SmartError twoGoodDisks i) ∧
    ((Fails (verdict (badblocks twoGoodDisks) DiskVars.unset) <->
        exists i, i < 2 ∧ BadDisk twoGoodDisks i) <->
      forall i, i < 2 -> ¬ BadDisk twoGoodDisks i) ∧
    Fails (verdict (ecc oneController) EccVars.unset) := by
  have hall := deviceTests_fail_iff twoGoodDisks DiskVars.unset oneController
    EccVars.unset (by decide)
  have herror : EccError oneController 0 := ⟨_, rfl, by decide⟩
  refine ⟨by decide, hall.left, hall.right.left, ?_⟩
  exact (hall.right.right.mpr fun _ => ⟨rfl, 0, by decide, herror⟩).mpr
    ⟨0, herror⟩

def oneBadDisk : Disks where
  qty := 2
  name := sdNames
  smartctl := fun name => if name = "sda".toList then 8 else 0
  badblocks := fun name => if name = "sda".toList then 1 else 0

/-- Eleven controllers, of which the last has corrected an error. -/
def elevenControllers : Edac := fun n =>
  if n < 11 then
    some
      { counts := { ce := if n = 10 then 1 else 0, ue := 0 }
        csrow := fun _ => none }
  else
    none

theorem deviceTests_miss_errors :
    (SmartError oneBadDisk 0 ∧
      ¬ Fails (verdict (hdhealth oneBadDisk) DiskVars.unset)) ∧
    (BadDisk oneBadDisk 0 ∧
      ¬ Fails (verdict (badblocks oneBadDisk) DiskVars.unset)) ∧
    EccError elevenControllers 10 ∧
      ¬ Fails (verdict (ecc elevenControllers) EccVars.unset) := by
  have hpositive : 0 < oneBadDisk.qty := by decide
  have hblind : anyBad (glob elevenControllers) = false := by decide
  refine ⟨⟨⟨by decide, by decide⟩, ?_⟩, ⟨?_, ?_⟩, ⟨_, rfl, by decide⟩, ?_⟩
  · rw [hdhealth_verdict hpositive]
    decide
  · unfold BadDisk
    decide
  · rw [badblocks_verdict hpositive]
    decide
  · rw [ecc_verdict (by decide), hblind]
    decide

end Scripts
end Breakin
