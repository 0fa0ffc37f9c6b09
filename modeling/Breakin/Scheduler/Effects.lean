import Breakin.Scheduler.Step

/-!
# What each action does to the world

One inversion lemma for every kind of action.  Later proofs cite these and never
unfold a step function again.
-/

namespace Breakin
namespace Scheduler

open Foundation

/-!
# Reading the process table
-/

theorem memory?_some_iff {w : World} {p : Nat} {m : Memory} :
    w.memory? p = some m <->
      exists pr, w.procs[p]? = some pr ∧ pr.life = .alive ∧
        pr.image = .breakin m := by
  unfold World.memory?
  constructor
  · intro h
    split at h
    · rename_i l pid m' hproc
      cases h
      exact ⟨_, hproc, rfl, rfl⟩
    · cases h
  · intro h
    rcases h with ⟨⟨pid, launched, life, image⟩, hproc, hlife, himage⟩
    cases hlife
    cases himage
    rw [hproc]

theorem at?_some_iff {w : World} {p t : Nat} {m : Memory} {pc : PC} :
    w.at? p t = some (m, pc) <->
      w.memory? p = some m ∧ m.threads[t]? = some pc := by
  unfold World.at?
  constructor
  · intro h
    split at h
    · cases h
    · rename_i m' hmem
      split at h
      · cases h
      · rename_i pc' hpc
        cases h
        exact ⟨hmem, hpc⟩
  · intro h
    rcases h with ⟨hmem, hpc⟩
    simp only [hmem, hpc]

theorem setImage_procs (w : World) (p q : Nat) (image : Image) :
    (w.setImage p image).procs[q]? =
      w.procs[q]?.map fun pr => if p = q then { pr with image := image } else pr := by
  simp [World.setImage, List.getElem?_modify]

theorem setLife_procs (w : World) (p q : Nat) (life : Life) :
    (w.setLife p life).procs[q]? =
      w.procs[q]?.map fun pr => if p = q then { pr with life := life } else pr := by
  simp [World.setLife, List.getElem?_modify]

@[simp] theorem setImage_pipes (w : World) (p : Nat) (image : Image) :
    (w.setImage p image).pipes = w.pipes := rfl

@[simp] theorem setMemory_pipes (w : World) (p : Nat) (m : Memory) :
    (w.setMemory p m).pipes = w.pipes := rfl

@[simp] theorem setLife_pipes (w : World) (p : Nat) (life : Life) :
    (w.setLife p life).pipes = w.pipes := rfl

@[simp] theorem afterWait_pipes (w : World) (res : WaitResult) :
    (w.afterWait res).pipes = w.pipes := by
  unfold World.afterWait
  split
  · split <;> rfl
  · rfl

/-!
# Inversion
-/

section Inversion

variable {w w' : World} {p t : Nat}

theorem stepFork_some {caller : Caller} {out : ForkOutcome}
    (h : stepFork w p t caller out = some w') :
    exists m pc, w.memory? p = some m ∧ m.threads[t]? = some pc ∧
      callerAt m pc = some caller ∧
        forkCmd w p t m caller out = some w' := by
  unfold stepFork at h
  split at h
  · cases h
  · rename_i m pc hat
    rcases at?_some_iff.mp hat with ⟨hmem, hpc⟩
    split at h
    · rename_i hcaller
      exact ⟨m, pc, hmem, hpc, hcaller, h⟩
    · cases h

theorem forkCmd_some {m : Memory} {caller : Caller} {out : ForkOutcome}
    (h : forkCmd w p t m caller out = some w') :
    (out.child = none ∧
      w' = World.setMemory { w with pipes := w.pipes ++ [Pipe.empty] } p
        (forkReturned (openPipe m w.pipes.length caller) t w.pipes.length
          (-1) caller out)) ∨
    (exists pid, out.child = some pid ∧ freshPid w pid = true ∧
      w' =
        { procs :=
            (w.setMemory p
              (forkReturned (openPipe m w.pipes.length caller) t
                w.pipes.length pid caller out)).procs ++
              [forkedChild (openPipe m w.pipes.length caller) pid p
                w.pipes.length caller]
          pipes := w.pipes ++ [Pipe.empty] }) := by
  unfold forkCmd at h
  cases hchild : out.child with
  | none =>
      left
      simp only [hchild, Option.some.injEq] at h
      exact ⟨rfl, h.symm⟩
  | some pid =>
      right
      simp only [hchild] at h
      split at h
      · rename_i hfresh
        simp only [Option.some.injEq] at h
        exact ⟨pid, rfl, hfresh, h.symm⟩
      · cases h

theorem stepExecve_some {ok : Bool} (h : stepExecve w p ok = some w') :
    exists m caller pipe, w.memory? p = some m ∧
      m.threads[0]? = some (.execve caller pipe) ∧
        w' = if ok then w.setImage p .program
          else w.setMemory p (m.goto 0 (.forkTail caller pipe)) := by
  unfold stepExecve at h
  split at h
  · rename_i m caller pipe hat
    rcases at?_some_iff.mp hat with ⟨hmem, hpc⟩
    refine ⟨m, caller, pipe, hmem, hpc, ?_⟩
    split at h <;> cases h <;> simp_all
  · cases h

theorem stepForkTail_some {out : ForkOutcome}
    (h : stepForkTail w p out = some w') :
    exists m caller pipe, w.memory? p = some m ∧
      m.threads[0]? = some (.forkTail caller pipe) ∧
        w' = w.setMemory p (forkReturned m 0 pipe 0 caller out) := by
  unfold stepForkTail at h
  split at h
  · rename_i m caller pipe hat
    rcases at?_some_iff.mp hat with ⟨hmem, hpc⟩
    cases h
    exact ⟨m, caller, pipe, hmem, hpc, rfl⟩
  · cases h

theorem stepVisit_some (h : stepVisit w p t = some w') :
    exists m m', w.memory? p = some m ∧ w' = w.setMemory p m' ∧
      ((exists i, m.threads[t]? = some (.launch i) ∧
          launchVisit m t i = some m') ∨
        (exists i, m.threads[t]? = some (.poll i) ∧
          m' = pollVisit m t i)) := by
  unfold stepVisit at h
  split at h
  · rename_i m i hat
    rcases at?_some_iff.mp hat with ⟨hmem, hpc⟩
    rcases Option.map_eq_some_iff.mp h with ⟨m', hvisit, hw⟩
    exact ⟨m, m', hmem, hw.symm, Or.inl ⟨i, hpc, hvisit⟩⟩
  · rename_i m i hat
    rcases at?_some_iff.mp hat with ⟨hmem, hpc⟩
    cases h
    exact ⟨m, _, hmem, rfl, Or.inr ⟨i, hpc, rfl⟩⟩
  · cases h

theorem stepFgets_some (h : stepFgets w p t = some w') :
    exists m pc m' fp pipe, w.memory? p = some m ∧ m.threads[t]? = some pc ∧
      drainArg m pc = some fp ∧ w.pipes[fp]? = some pipe ∧
        ((pipe.unread = [] ∧ drained m t none pc = some m' ∧
            w' = w.setMemory p m') ∨
          (exists line pipe', pipe.fgets BUFSIZ = some (line, pipe') ∧
            drained m t (some line) pc = some m' ∧
              w' = { w.setMemory p m' with pipes := w.pipes.set fp pipe' })) := by
  unfold stepFgets at h
  split at h
  · cases h
  · rename_i m pc hat
    rcases at?_some_iff.mp hat with ⟨hmem, hpc⟩
    split at h
    · cases h
    · rename_i fp hfp
      split at h
      · cases h
      · rename_i pipe hpipe
        split at h
        · rename_i hnone
          rcases Option.map_eq_some_iff.mp h with ⟨m', hdrained, hw⟩
          exact ⟨m, pc, m', fp, pipe, hmem, hpc, hfp, hpipe,
            Or.inl ⟨Pipe.fgets_none_iff.mp hnone, hdrained, hw.symm⟩⟩
        · rename_i line pipe' hline
          rcases Option.map_eq_some_iff.mp h with ⟨m', hdrained, hw⟩
          exact ⟨m, pc, m', fp, pipe, hmem, hpc, hfp, hpipe,
            Or.inr ⟨line, pipe', hline, hdrained, hw.symm⟩⟩

theorem stepWaitpid_some {res : WaitResult}
    (h : stepWaitpid w p t res = some w') :
    exists m pc pid m', w.memory? p = some m ∧ m.threads[t]? = some pc ∧
      waitArg m pc = some pid ∧ waitpidAllows w p pid res = true ∧
        waited m t (waitOutcome w res) pc = some m' ∧
          w' = (w.afterWait res).setMemory p m' := by
  unfold stepWaitpid at h
  split at h
  · cases h
  · rename_i m pc hat
    rcases at?_some_iff.mp hat with ⟨hmem, hpc⟩
    split at h
    · cases h
    · rename_i pid hpid
      split at h
      · rename_i hallow
        rcases Option.map_eq_some_iff.mp h with ⟨m', hwaited, hw⟩
        exact ⟨m, pc, pid, m', hmem, hpc, hpid, hallow, hwaited, hw.symm⟩
      · cases h

theorem stepWake_some (h : stepWake w p t = some w') :
    exists m, w.memory? p = some m ∧ m.threads[t]? = some .sleep ∧
      w' = w.setMemory p (m.goto t (.launch 0)) := by
  unfold stepWake at h
  split at h
  · rename_i m hat
    rcases at?_some_iff.mp hat with ⟨hmem, hpc⟩
    cases h
    exact ⟨m, hmem, hpc, rfl⟩
  · cases h

theorem stepDumpLog_some (h : stepDumpLog w = some w') :
    exists m, w.memory? 0 = some m ∧
      w' = w.setMemory 0
        { m with
          threads := m.threads ++
            [.helper (.dumpLog m.threads.length) .fork] } := by
  unfold stepDumpLog at h
  split at h
  · cases h
  · rename_i m hmem
    cases h
    exact ⟨m, hmem, rfl⟩

theorem stepWrite_some {bytes : List Char}
    (h : stepWrite w p bytes = some w') :
    exists pr l, w.procs[p]? = some pr ∧ pr.life = .alive ∧
      pr.launched = some l ∧
        w' = { w with
          pipes := w.pipes.modify l.out fun pipe => pipe.write bytes } := by
  unfold stepWrite at h
  split at h
  · rename_i pid l image hproc
    cases h
    exact ⟨_, l, hproc, rfl, rfl, rfl⟩
  · cases h

theorem stepExit_some {status : WaitStatus}
    (h : stepExit w p status = some w') :
    exists pr l, w.procs[p]? = some pr ∧ pr.life = .alive ∧
      pr.launched = some l ∧ w' = w.setLife p (.zombie status) := by
  unfold stepExit at h
  split at h
  · rename_i pid l image hproc
    cases h
    exact ⟨_, l, hproc, rfl, rfl, rfl⟩
  · cases h

end Inversion

end Scheduler
end Breakin
