import Mathlib.Data.Rat.Cast.Order
import Mathlib.Data.Nat.Find
import Mathlib.Order.Monotone.Basic
import Mathlib.Tactic.NormNum
import Mathlib.Tactic.Ring
import Mathlib.Tactic.Linarith
import Breakin.Foundation.Turns

/-!
# The throughput of a disk

`bench_disk` reads blocks of 2 MB for three seconds, or 1024 of them, and divides
what was read by the time it took.  Its locals have no value until they are
assigned.
-/

namespace Breakin
namespace Stats

open Foundation

def TIMING_BUF_MB : Nat := 2

def TIMING_BUF_BYTES : Nat := TIMING_BUF_MB * 1024 * 1024

def maxIterations : Nat := 1024

/-- What `getitimer` leaves in `it_value`. -/
structure Timeval where
  sec : Int
  usec : Int
deriving DecidableEq

def Timeval.micros (t : Timeval) : Int :=
  1000000 * t.sec + t.usec

/-- What the system answers to a call of `bench_disk`.  `read k` is the result of
the read in turn `k`, `timer 0` the first reading of the timer and `timer k` the
one after that read. -/
structure DiskAnswers where
  opened : Int
  shmget : Int
  locked : Int
  attached : Int
  read : Nat -> Int
  timer : Nat -> Timeval
  falls : forall k, (timer (k + 1)).micros ≤ (timer k).micros

/-- `read_big_block`, for the result of its `read`. -/
def readBigBlock (rc : Int) : Int :=
  if rc ≠ TIMING_BUF_BYTES then 1 else 0

/-- `elapsed`, as the rational number that the sum stands for: it is a multiple of
a millionth, so the rounding of the sum decides neither of the comparisons with 3
and with 0. -/
def elapsedBetween (e1 e2 : Timeval) : Rat :=
  ((e1.sec - e2.sec : Int) : Rat) + ((e1.usec - e2.usec : Int) : Rat) / 1000000

/-- `none` is a local without a value. -/
structure BenchLocals where
  iterations : Nat
  elapsed : Option Rat
  totalMB : Option Nat

inductive BenchResult where
  | value (v : Rat)
  | unassigned
  | dividesByZero
deriving DecidableEq

def benchTurn (a : DiskAnswers) (l : BenchLocals) :
    Turn BenchLocals BenchLocals :=
  let iterations := l.iterations + 1
  if readBigBlock (a.read iterations) ≠ 0 then
    -- `goto quit`, past the assignment of `total_MB`
    .leave { l with iterations := iterations }
  else
    let elapsed := elapsedBetween (a.timer 0) (a.timer iterations)
    if elapsed < 3 ∧ iterations < maxIterations then
      .again { l with iterations := iterations, elapsed := some elapsed }
    else
      .leave
        { iterations := iterations
          elapsed := some elapsed
          totalMB := some (iterations * TIMING_BUF_MB) }

/-- `return total_MB / elapsed` -/
def throughput (l : BenchLocals) : BenchResult :=
  match l.totalMB, l.elapsed with
  | some totalMB, some elapsed =>
      if elapsed = 0 then .dividesByZero else .value (totalMB / elapsed)
  | _, _ => .unassigned

def benchStart : BenchLocals where
  iterations := 0
  elapsed := none
  totalMB := none

def benchDisk (a : DiskAnswers) : Option BenchResult :=
  if a.opened < 0 then some (.value 1)
  else if a.shmget = -1 then some (.value 1)
  else if a.locked = -1 then some (.value 1)
  else if a.attached = -1 then some (.value 1)
  else (turnLoop (benchTurn a) maxIterations benchStart).map throughput

/-!
# The measurement
-/

namespace DiskAnswers

variable (a : DiskAnswers)

def Opened : Prop :=
  0 ≤ a.opened

def HasBuffer : Prop :=
  a.shmget ≠ -1 ∧ a.locked ≠ -1 ∧ a.attached ≠ -1

def Reads (k : Nat) : Prop :=
  a.read k = TIMING_BUF_BYTES

def elapsed (k : Nat) : Rat :=
  elapsedBetween (a.timer 0) (a.timer k)

/-- Turn `k + 1` is the last one: its block is not read, or the time is up, or
there are enough blocks. -/
def Ends (k : Nat) : Prop :=
  ¬ a.Reads (k + 1) ∨ 3 ≤ a.elapsed (k + 1) ∨ k + 1 = maxIterations

instance : Decidable a.Opened :=
  inferInstanceAs (Decidable (_ ≤ _))

instance : Decidable a.HasBuffer :=
  inferInstanceAs (Decidable (_ ∧ _))

instance (k : Nat) : Decidable (a.Reads k) :=
  inferInstanceAs (Decidable (_ = _))

instance (k : Nat) : Decidable (a.Ends k) :=
  inferInstanceAs (Decidable (_ ∨ _ ∨ _))

theorem exists_ends : exists k, a.Ends k :=
  ⟨maxIterations - 1, Or.inr (Or.inr rfl)⟩

def fullTurns : Nat :=
  Nat.find a.exists_ends

def blocksRead : Nat :=
  if a.Opened ∧ a.HasBuffer then
    if a.Reads (a.fullTurns + 1) then a.fullTurns + 1 else a.fullTurns
  else 0

/-- The call uses no value that it has not assigned and divides by no zero, a
positive result is the measured speed, and without a measurement the result is not
positive: a positive one is displayed. -/
structure Truthful : Prop where
  returns : exists r, benchDisk a = some r
  assigned : benchDisk a ≠ some .unassigned
  divides : benchDisk a ≠ some .dividesByZero
  measured : forall v, benchDisk a = some (.value v) -> 0 < v ->
    v = ((TIMING_BUF_MB * a.blocksRead : Nat) : Rat) / a.elapsed a.blocksRead
  unmeasured : ¬ a.Opened ∨ ¬ a.HasBuffer ∨ a.blocksRead = 0 ->
    forall v, benchDisk a = some (.value v) -> ¬ 0 < v

/-- Before a read fails, three seconds have passed, or all the blocks were read
and some time has. -/
structure Completes : Prop where
  opened : a.Opened
  buffer : a.HasBuffer
  blocks : exists n, 0 < n ∧ n ≤ maxIterations ∧
    (forall k, 0 < k -> k ≤ n -> a.Reads k) ∧
      (3 ≤ a.elapsed n ∨ (n = maxIterations ∧ 0 < a.elapsed n))

end DiskAnswers

/-!
# The loop
-/

section Loop

variable (a : DiskAnswers)

theorem readBigBlock_eq_zero (k : Nat) :
    readBigBlock (a.read k) = 0 <-> a.Reads k := by
  unfold readBigBlock DiskAnswers.Reads
  split <;> simp_all

theorem fullTurns_ends : a.Ends a.fullTurns :=
  Nat.find_spec a.exists_ends

theorem goesOn_of_lt {k : Nat} (h : k < a.fullTurns) :
    a.Reads (k + 1) ∧ a.elapsed (k + 1) < 3 ∧ k + 1 ≠ maxIterations := by
  have hnot : ¬ a.Ends k := Nat.find_min a.exists_ends h
  simp only [DiskAnswers.Ends, not_or, not_not, not_le] at hnot
  exact hnot

theorem fullTurns_le {k : Nat} (h : a.Ends k) : a.fullTurns ≤ k :=
  Nat.find_min' a.exists_ends h

theorem fullTurns_lt : a.fullTurns < maxIterations := by
  have hle : a.fullTurns ≤ maxIterations - 1 :=
    fullTurns_le a (Or.inr (Or.inr rfl))
  have hpos : 0 < maxIterations := by decide
  omega

def localsAfter (k : Nat) : BenchLocals where
  iterations := k
  elapsed := if k = 0 then none else some (a.elapsed k)
  totalMB := none

theorem benchTurn_again {k : Nat} (h : k < a.fullTurns) :
    benchTurn a (localsAfter a k) = .again (localsAfter a (k + 1)) := by
  rcases goesOn_of_lt a h with ⟨hread, hearly, _⟩
  have hfew : k + 1 < maxIterations := by
    have hlt := fullTurns_lt a
    omega
  have hcode : readBigBlock (a.read (k + 1)) = 0 :=
    (readBigBlock_eq_zero a (k + 1)).mpr hread
  simp only [benchTurn, localsAfter, hcode, ne_eq, not_true_eq_false, if_false,
    Nat.succ_ne_zero]
  exact if_pos ⟨hearly, hfew⟩

def localsAtEnd : BenchLocals :=
  if a.Reads (a.fullTurns + 1) then
    { iterations := a.fullTurns + 1
      elapsed := some (a.elapsed (a.fullTurns + 1))
      totalMB := some ((a.fullTurns + 1) * TIMING_BUF_MB) }
  else
    { localsAfter a a.fullTurns with iterations := a.fullTurns + 1 }

theorem benchTurn_leave :
    benchTurn a (localsAfter a a.fullTurns) = .leave (localsAtEnd a) := by
  have hiff := readBigBlock_eq_zero a (a.fullTurns + 1)
  by_cases hread : a.Reads (a.fullTurns + 1)
  · have hcode := hiff.mpr hread
    have hlast : ¬ (a.elapsed (a.fullTurns + 1) < 3 ∧
        a.fullTurns + 1 < maxIterations) := by
      rintro ⟨hearly, hfew⟩
      rcases fullTurns_ends a with hfails | hlate | hmany
      · exact hfails hread
      · exact absurd hearly (not_lt.mpr hlate)
      · omega
    simp only [benchTurn, localsAfter, localsAtEnd, hcode, hread, ne_eq,
      not_true_eq_false, if_false, if_true]
    exact if_neg hlast
  · have hcode : readBigBlock (a.read (a.fullTurns + 1)) ≠ 0 :=
      fun hzero => hread (hiff.mp hzero)
    simp only [benchTurn, localsAfter, localsAtEnd, hcode, hread, ne_eq,
      not_false_eq_true, if_false, if_true]

theorem benchLoop_eq :
    turnLoop (benchTurn a) maxIterations benchStart = some (localsAtEnd a) :=
  turnLoop_leaves (s := localsAfter a) (fun _ hi => benchTurn_again a hi)
    (benchTurn_leave a) (fullTurns_lt a)

theorem throughput_atEnd :
    throughput (localsAtEnd a) =
      if a.Reads (a.fullTurns + 1) then
        if a.elapsed (a.fullTurns + 1) = 0 then .dividesByZero
        else .value
          ((((a.fullTurns + 1) * TIMING_BUF_MB : Nat) : Rat) /
            a.elapsed (a.fullTurns + 1))
      else .unassigned := by
  unfold localsAtEnd
  split
  · rfl
  · rfl

theorem benchDisk_eq :
    benchDisk a =
      if a.Opened ∧ a.HasBuffer then some (throughput (localsAtEnd a))
      else some (.value 1) := by
  unfold benchDisk DiskAnswers.Opened DiskAnswers.HasBuffer
  rw [benchLoop_eq, Option.map_some]
  split_ifs <;> first | rfl | omega

theorem elapsed_micros (k : Nat) :
    a.elapsed k =
      (((a.timer 0).micros - (a.timer k).micros : Int) : Rat) / 1000000 := by
  simp only [DiskAnswers.elapsed, elapsedBetween, Timeval.micros]
  push_cast
  ring

theorem elapsed_nonneg (k : Nat) : 0 ≤ a.elapsed k := by
  have hfalls : Antitone fun k => (a.timer k).micros :=
    antitone_nat_of_succ_le a.falls
  have hle : (a.timer k).micros ≤ (a.timer 0).micros := hfalls (Nat.zero_le k)
  have hdiff : 0 ≤ (a.timer 0).micros - (a.timer k).micros := by omega
  rw [elapsed_micros]
  exact div_nonneg (Int.cast_nonneg hdiff) (by norm_num)

end Loop

/-!
# When the result is the measured speed
-/

namespace DiskAnswers

variable {a : DiskAnswers}

/-- The measurement is complete when the block of the last turn is read and some
time has passed. -/
theorem completes_iff (hopened : a.Opened) (hbuffer : a.HasBuffer) :
    a.Completes <->
      a.Reads (a.fullTurns + 1) ∧ 0 < a.elapsed (a.fullTurns + 1) := by
  constructor
  · intro h
    rcases h.blocks with ⟨n, hpos, hmany, hreads, htime⟩
    have hends : a.Ends (n - 1) := by
      right
      rw [Nat.sub_add_cancel hpos]
      exact htime.imp id And.left
    have hle : a.fullTurns + 1 ≤ n := by
      have hfirst := fullTurns_le a hends
      omega
    have hread := hreads (a.fullTurns + 1) (Nat.succ_pos _) hle
    refine ⟨hread, ?_⟩
    rcases fullTurns_ends a with hfails | hlate | hall
    · exact absurd hread hfails
    · linarith
    · have hsame : n = a.fullTurns + 1 := by omega
      rw [← hsame]
      rcases htime with hlate | ⟨_, hsome⟩
      · linarith
      · exact hsome
  · rintro ⟨hread, hsome⟩
    refine ⟨hopened, hbuffer, a.fullTurns + 1, Nat.succ_pos _, fullTurns_lt a,
      ?_, ?_⟩
    · intro k hpos hk
      rcases Nat.lt_or_ge (k - 1) a.fullTurns with hbefore | hlast
      · have hearlier := (goesOn_of_lt a hbefore).left
        rwa [Nat.sub_add_cancel hpos] at hearlier
      · have hsame : k = a.fullTurns + 1 := by omega
        rwa [hsame]
    · rcases fullTurns_ends a with hfails | hlate | hall
      · exact absurd hread hfails
      · exact Or.inl hlate
      · exact Or.inr ⟨hall, hsome⟩

theorem Completes.truthful (h : a.Completes) : a.Truthful := by
  rcases (completes_iff h.opened h.buffer).mp h with ⟨hread, hsome⟩
  have hblocks : a.blocksRead = a.fullTurns + 1 := by
    simp [blocksRead, h.opened, h.buffer, hread]
  have hresult : benchDisk a = some (.value
      ((((a.fullTurns + 1) * TIMING_BUF_MB : Nat) : Rat) /
        a.elapsed (a.fullTurns + 1))) := by
    rw [benchDisk_eq, if_pos ⟨h.opened, h.buffer⟩, throughput_atEnd,
      if_pos hread, if_neg hsome.ne']
  refine ⟨⟨_, hresult⟩, ?_, ?_, ?_, ?_⟩
  · rw [hresult]
    intro heq
    cases heq
  · rw [hresult]
    intro heq
    cases heq
  · intro v hv _
    rw [hresult] at hv
    cases hv
    rw [hblocks, Nat.mul_comm]
  · rintro (hclosed | hnone | hzero)
    · exact absurd h.opened hclosed
    · exact absurd h.buffer hnone
    · omega

theorem Truthful.setUp (h : a.Truthful) : a.Opened ∧ a.HasBuffer := by
  by_contra hnot
  have hresult : benchDisk a = some (.value 1) := by
    rw [benchDisk_eq, if_neg hnot]
  have hmissing : ¬ a.Opened ∨ ¬ a.HasBuffer := not_and_or.mp hnot
  exact h.unmeasured (hmissing.imp id Or.inl) 1 hresult one_pos

theorem Truthful.completes (h : a.Truthful) : a.Completes := by
  rcases h.setUp with ⟨hopened, hbuffer⟩
  have hresult : benchDisk a = some (throughput (localsAtEnd a)) := by
    rw [benchDisk_eq, if_pos ⟨hopened, hbuffer⟩]
  have hassigned := h.assigned
  have hdivides := h.divides
  rw [hresult, throughput_atEnd] at hassigned hdivides
  rw [completes_iff hopened hbuffer]
  by_cases hread : a.Reads (a.fullTurns + 1)
  · refine ⟨hread, lt_of_le_of_ne (elapsed_nonneg a _) ?_⟩
    intro hzero
    rw [if_pos hread, if_pos hzero.symm] at hdivides
    exact hdivides rfl
  · rw [if_neg hread] at hassigned
    exact absurd rfl hassigned

/-- The result tells the speed of the disk exactly when the measurement runs to
its end and takes some time. -/
theorem truthful_iff_completes (a : DiskAnswers) : a.Truthful <-> a.Completes :=
  ⟨Truthful.completes, Completes.truthful⟩

end DiskAnswers

def absentDisk : DiskAnswers where
  opened := -1
  shmget := 0
  locked := 0
  attached := 0
  read := fun _ => -1
  timer := fun _ => { sec := 1000, usec := 0 }
  falls := fun _ => le_refl _

def smallDisk : DiskAnswers :=
  { absentDisk with opened := 3, read := fun _ => 0 }

/-- The 1 of the error exits is shown as a speed, and the exit from the loop
divides two locals that have no value. -/
theorem absentDisk_not_truthful :
    ¬ absentDisk.Truthful ∧ ¬ smallDisk.Truthful := by
  constructor
  · intro h
    exact h.unmeasured (Or.inl (by decide)) 1 rfl one_pos
  · intro h
    exact h.assigned rfl

end Stats
end Breakin
