import Breakin.Scheduler.Control

/-!
# Who executes the scheduler

A forked child is a copy of the scheduler until its `execve` replaces the program.
`fork_cmd` does not stop a child whose `execve` came back, so the scheduler stays
alone exactly as long as no `execve` fails.
-/

namespace Breakin
namespace Scheduler

open Foundation

def Process.BeforeExecve (pr : Process) : Prop :=
  exists m caller pipe, pr.image = .breakin m ∧
    m.threads = [.execve caller pipe]

/-- A forked child has become its program, is about to, or has terminated. -/
def Process.Settled (pr : Process) : Prop :=
  pr.image = .program ∨ pr.BeforeExecve ∨ pr.life ≠ .alive

def OneScheduler (w : World) : Prop :=
  forall q pr, w.procs[q]? = some pr -> q ≠ 0 -> pr.Settled

/-- In every state of the run the first process is the only scheduler, and no
other process returns from `fork_cmd` or takes a step of `run_burnin_tests` or of
the poll loop. -/
def OneSchedulerRun (w : World) (acts : List Action) : Prop :=
  Along step w acts OneScheduler ∧ forall a, a ∈ acts -> ¬ Foreign a

def ExecveFails : Action -> Prop
  | .execve _ ok => ok = false
  | _ => False

instance : DecidablePred ExecveFails
  | .execve _ ok => inferInstanceAs (Decidable (ok = false))
  | .forkCmd .. | .forkTail .. | .visit .. | .fgets .. | .waitpid .. | .wake ..
  | .dumpLog | .write .. | .exit .. => isFalse id

theorem OneScheduler.acting {w : World} (h : OneScheduler w) {p t : Nat}
    {m : Memory} {pc : PC} (hmem : w.memory? p = some m)
    (hpc : m.threads[t]? = some pc)
    (hnot : forall caller pipe, pc ≠ .execve caller pipe) : p = 0 := by
  rcases memory?_some_iff.mp hmem with ⟨pr, hproc, hlife, himage⟩
  apply Classical.byContradiction
  intro hp
  rcases h p pr hproc hp with hprogram | ⟨m', caller, pipe, himage', hthreads⟩ |
    hdead
  · rw [himage] at hprogram
    cases hprogram
  · rw [himage] at himage'
    cases himage'
    rw [hthreads, List.getElem?_singleton] at hpc
    split at hpc
    · exact hnot caller pipe (Option.some.inj hpc).symm
    · cases hpc
  · exact hdead hlife

theorem OneScheduler.setMemory_root {w : World} (h : OneScheduler w)
    (m : Memory) : OneScheduler (w.setMemory 0 m) := by
  intro q pr hproc hq
  rw [World.setMemory, setImage_procs] at hproc
  rcases Option.map_eq_some_iff.mp hproc with ⟨old, hold, heq⟩
  rw [if_neg (fun hzero => hq hzero.symm)] at heq
  rw [← heq]
  exact h q old hold hq

theorem OneScheduler.withPipes {w : World} (h : OneScheduler w)
    (pipes : List Pipe) : OneScheduler { w with pipes := pipes } := h

theorem OneScheduler.setLife {w : World} (h : OneScheduler w) {p : Nat}
    {life : Life} (hlife : life ≠ .alive) : OneScheduler (w.setLife p life) := by
  intro q pr hproc hq
  rw [setLife_procs] at hproc
  rcases Option.map_eq_some_iff.mp hproc with ⟨old, hold, heq⟩
  by_cases hp : p = q
  · rw [if_pos hp] at heq
    rw [← heq]
    exact Or.inr (Or.inr hlife)
  · rw [if_neg hp] at heq
    rw [← heq]
    exact h q old hold hq

theorem OneScheduler.setProgram {w : World} (h : OneScheduler w) (p : Nat) :
    OneScheduler (w.setImage p .program) := by
  intro q pr hproc hq
  rw [setImage_procs] at hproc
  rcases Option.map_eq_some_iff.mp hproc with ⟨old, hold, heq⟩
  by_cases hp : p = q
  · rw [if_pos hp] at heq
    rw [← heq]
    exact Or.inl rfl
  · rw [if_neg hp] at heq
    rw [← heq]
    exact h q old hold hq

theorem OneScheduler.append {w : World} (h : OneScheduler w) {child : Process}
    (hchild : child.Settled) :
    OneScheduler { w with procs := w.procs ++ [child] } := by
  intro q pr hproc hq
  rw [List.getElem?_append] at hproc
  split at hproc
  · exact h q pr hproc hq
  · rw [List.getElem?_singleton] at hproc
    split at hproc
    · rw [← Option.some.inj hproc]
      exact hchild
    · cases hproc

theorem OneScheduler.afterWait {w : World} (h : OneScheduler w)
    (res : WaitResult) : OneScheduler (w.afterWait res) := by
  unfold World.afterWait
  split
  · split
    · exact h.setLife (by intro heq; cases heq)
    · exact h
  · exact h

theorem forkedChild_settled (m : Memory) (pid parent pipe : Nat)
    (caller : Caller) : (forkedChild m pid parent pipe caller).Settled :=
  Or.inr (Or.inl ⟨_, caller, pipe, rfl, rfl⟩)

theorem callerAt_ne_execve {m : Memory} {pc : PC} {caller : Caller}
    (h : callerAt m pc = some caller) (c : Caller) (pipe : Nat) :
    pc ≠ .execve c pipe := by
  intro heq
  rw [heq] at h
  cases h

/-- One step keeps the scheduler alone, unless it is a failing `execve`, and only
the first process takes a step of the scheduler's code. -/
theorem OneScheduler.step {w w' : World} {v : View} {a : Action}
    (h : OneScheduler w) (hview : ViewOf w v) (hcontrol : Control v.mem)
    (ha : ¬ ExecveFails a) (hstep : Scheduler.step w a = some w') :
    OneScheduler w' ∧ ¬ Foreign a := by
  cases a with
  | forkCmd p t caller out =>
      rcases stepFork_some hstep with ⟨m, pc, hmem, hpc, hcaller, hfork⟩
      have hp : p = 0 := h.acting hmem hpc (callerAt_ne_execve hcaller)
      subst hp
      refine ⟨?_, fun hforeign => hforeign rfl⟩
      rcases forkCmd_some hfork with ⟨hchild, hw⟩ | ⟨pid, hchild, _, hw⟩
      · rw [hw]
        exact (h.withPipes _).setMemory_root _
      · rw [hw]
        exact ((h.setMemory_root _).append
          (forkedChild_settled _ _ _ _ _)).withPipes _
  | execve p ok =>
      rcases stepExecve_some hstep with ⟨m, caller, pipe, hmem, hpc, hw⟩
      cases ok with
      | false => exact absurd rfl ha
      | true =>
          rw [hw]
          exact ⟨h.setProgram p, id⟩
  | forkTail p out =>
      rcases stepForkTail_some hstep with ⟨m, caller, pipe, hmem, hpc, hw⟩
      have hp : p = 0 := h.acting hmem hpc (by intro c k heq; cases heq)
      subst hp
      rw [hview.mem_eq hmem] at hpc
      exact absurd hpc hcontrol.threads.not_exec.right
  | visit p t =>
      rcases stepVisit_some hstep with ⟨m, m', hmem, hw, hcase⟩
      have hp : p = 0 := by
        rcases hcase with ⟨i, hpc, _⟩ | ⟨i, hpc, _⟩
        · exact h.acting hmem hpc (by intro c k heq; cases heq)
        · exact h.acting hmem hpc (by intro c k heq; cases heq)
      subst hp
      rw [hw]
      exact ⟨h.setMemory_root _, fun hforeign => hforeign rfl⟩
  | fgets p t =>
      rcases stepFgets_some hstep with
        ⟨m, pc, m', fp, pipe, hmem, hpc, hfp, hpipe, hcase⟩
      have hp : p = 0 := by
        apply h.acting hmem hpc
        intro c k heq
        rw [heq] at hfp
        cases hfp
      subst hp
      refine ⟨?_, fun hforeign => hforeign rfl⟩
      rcases hcase with ⟨_, _, hw⟩ | ⟨line, pipe', _, _, hw⟩
      · rw [hw]
        exact h.setMemory_root _
      · rw [hw]
        exact (h.setMemory_root _).withPipes _
  | waitpid p t res =>
      rcases stepWaitpid_some hstep with
        ⟨m, pc, pid, m', hmem, hpc, harg, hallow, hwaited, hw⟩
      have hp : p = 0 := by
        apply h.acting hmem hpc
        intro c k heq
        rw [heq] at harg
        cases harg
      subst hp
      rw [hw]
      exact ⟨(h.afterWait res).setMemory_root _, fun hforeign => hforeign rfl⟩
  | wake p t =>
      rcases stepWake_some hstep with ⟨m, hmem, hpc, hw⟩
      have hp : p = 0 := h.acting hmem hpc (by intro c k heq; cases heq)
      subst hp
      rw [hw]
      exact ⟨h.setMemory_root _, fun hforeign => hforeign rfl⟩
  | dumpLog =>
      rcases stepDumpLog_some hstep with ⟨m, hmem, hw⟩
      rw [hw]
      exact ⟨h.setMemory_root _, id⟩
  | write p bytes =>
      rcases stepWrite_some hstep with ⟨pr, l, hproc, hlife, hlaunch, hw⟩
      rw [hw]
      exact ⟨h.withPipes _, id⟩
  | exit p status =>
      rcases stepExit_some hstep with ⟨pr, l, hproc, hlife, hlaunch, hw⟩
      rw [hw]
      exact ⟨h.setLife (by intro heq; cases heq), id⟩

theorem oneScheduler_start (pid : Nat) (tests : List CString) :
    OneScheduler (start pid tests) := by
  intro q pr hproc hq
  cases q with
  | zero => exact absurd rfl hq
  | succ q => cases hproc

theorem oneScheduler_run {pid : Nat} {tests : List CString}
    {acts : List Action} {w : World}
    (hrun : run (start pid tests) acts = some w)
    (hexec : forall a, a ∈ acts -> ¬ ExecveFails a) :
    OneScheduler w ∧ (forall a, a ∈ acts -> ¬ Foreign a) ∧
      exists v, ViewOf w v ∧ Control v.mem := by
  revert hexec
  refine runFrom_history (R := fun acts w =>
    (forall a, a ∈ acts -> ¬ ExecveFails a) ->
      OneScheduler w ∧ (forall a, a ∈ acts -> ¬ Foreign a) ∧
        exists v, ViewOf w v ∧ Control v.mem) ?_ ?_ hrun
  · intro _
    refine ⟨oneScheduler_start pid tests, ?_, ?_⟩
    · intro a ha
      cases ha
    · exact ⟨_, viewOf_start pid tests, control_start tests⟩
  · intro acts a t u _hrun ih hstep hexec
    rcases ih (fun b hb => hexec b (List.mem_append_left _ hb)) with
      ⟨hone, hforeign, v, hview, hcontrol⟩
    have ha : ¬ ExecveFails a := hexec a (by simp)
    rcases hone.step hview hcontrol ha hstep with ⟨hone', hnot⟩
    rcases rootStep_of_step hview hcontrol.threads hstep with
      ⟨v', hview', hroot⟩
    refine ⟨hone', ?_, v', hview', hroot.control hcontrol⟩
    intro b hb
    rcases List.mem_append.mp hb with hold | hnew
    · exact hforeign b hold
    · rw [List.mem_singleton.mp hnew]
      exact hnot

/-- A child whose `execve` came back is a second scheduler from then on. -/
theorem not_oneScheduler_of_execve_fails {w w' : World} {v : View}
    (hview : ViewOf w v) (hcontrol : Control v.mem) {p : Nat}
    (hstep : step w (.execve p false) = some w') : ¬ OneScheduler w' := by
  intro hone
  rcases stepExecve_some hstep with ⟨m, caller, pipe, hmem, hpc, hw⟩
  have hp : p ≠ 0 := by
    intro hzero
    rw [hzero] at hmem
    rw [hview.mem_eq hmem] at hpc
    exact hcontrol.threads.not_exec.left hpc
  have hmem' : w'.memory? p = some (m.goto 0 (.forkTail caller pipe)) := by
    rcases memory?_some_iff.mp hmem with ⟨pr, hproc, hlife, _⟩
    rw [hw]
    exact memory?_some_iff.mpr
      ⟨{ pr with image := .breakin (m.goto 0 (.forkTail caller pipe)) },
        by simp [World.setMemory, setImage_procs, hproc], hlife, rfl⟩
  have hpos : 0 < m.threads.length := (List.getElem?_eq_some_iff.mp hpc).choose
  have hthread : (m.goto 0 (.forkTail caller pipe)).threads[0]? =
      some (.forkTail caller pipe) := by
    simp [hpos]
  exact hp (hone.acting hmem' hthread (by intro c k heq; cases heq))

theorem oneSchedulerRun_iff {pid : Nat} {tests : List CString}
    {acts : List Action} {w : World}
    (hrun : run (start pid tests) acts = some w) :
    OneSchedulerRun (start pid tests) acts <->
      forall a, a ∈ acts -> ¬ ExecveFails a := by
  constructor
  · intro hone a ha hfails
    cases a with
    | execve p ok =>
        cases ok with
        | true => cases hfails
        | false =>
            rcases List.append_of_mem ha with ⟨pre, post, hacts⟩
            rw [hacts] at hrun
            rcases runFrom_append.mp hrun with ⟨t, hpre, hrest⟩
            rcases runFrom_cons_some.mp hrest with ⟨u, hstep, _⟩
            rcases view_run (P := fun _ => True) (C := fun _ _ => True)
              trivial (fun _ _ _ _ _ _ _ _ _ => trivial)
              (fun _ _ _ _ _ _ => trivial) hpre with
              ⟨v, hview, hcontrol, _⟩
            apply not_oneScheduler_of_execve_fails hview hcontrol hstep
            apply hone.left (pre ++ [.execve p false]) post u
            · rw [hacts, List.append_assoc]
              rfl
            · exact runFrom_snoc.mpr ⟨t, hpre, hstep⟩
    | _ => exact hfails
  · intro hexec
    refine ⟨?_, (oneScheduler_run hrun hexec).right.left⟩
    intro pre post t hacts hpre
    apply (oneScheduler_run hpre ?_).left
    intro a ha
    exact hexec a (by rw [hacts]; exact List.mem_append_left _ ha)

/-- The hardware setup of `main`: `hardware.sh` gets process id 2, exits, and is
reaped. -/
def hardwareSetup : List Action :=
  [.forkCmd 0 0 (.helper .hardware)
      { child := some 2, fcntl := true, fdopen := true },
    .execve 1 true, .exit 1 (.exited 0), .fgets 0 0,
    .waitpid 0 0 (.reaped 1)]

def oneScriptRun : List Action :=
  hardwareSetup ++
    [.forkCmd 0 0 (.burnin 0)
        { child := some 3, fcntl := true, fdopen := true },
      .execve 2 true, .visit 0 0, .visit 0 0]

theorem oneSchedulerRun_oneScript :
    OneSchedulerRun (start 1 ["hpl".toList]) oneScriptRun :=
  (oneSchedulerRun_iff (w := _) rfl).mpr (by decide)

/-- One script that cannot be executed: its child returns from `fork_cmd`, and
goes through `run_burnin_tests` into the poll loop. -/
def failedExecveRun : List Action :=
  hardwareSetup ++
    [.forkCmd 0 0 (.burnin 0)
        { child := some 3, fcntl := true, fdopen := true },
      .execve 2 false,
      .forkTail 2 { child := none, fcntl := true, fdopen := true },
      .visit 2 0, .visit 2 0]

theorem failedExecve_second_scheduler :
    exists w m, run (start 1 ["README".toList]) failedExecveRun = some w ∧
      w.memory? 2 = some m ∧ m.threads = [.drain 0] ∧
        ¬ OneSchedulerRun (start 1 ["README".toList]) failedExecveRun := by
  refine ⟨_, _, rfl, rfl, rfl, ?_⟩
  intro hone
  apply hone.right (.visit 2 0)
  · decide
  · intro hzero
    cases hzero

end Scheduler
end Breakin
