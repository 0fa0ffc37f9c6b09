import Breakin.Scheduler.RootView

/-!
# What a thread does to the script table

`Move` is the control skeleton of the scheduler: how one step of a thread changes
the table of burn-in scripts and the place the thread is at.  Every invariant on
the control flow is an induction over these cases.
-/

namespace Breakin
namespace Scheduler

open Foundation

section Projections

variable (m : Memory) (t i fp pipe : Nat)

@[simp] theorem goto_scripts (pc : PC) : (m.goto t pc).scripts = m.scripts := rfl

@[simp] theorem goto_threads (pc : PC) :
    (m.goto t pc).threads = m.threads.set t pc := rfl

@[simp] theorem goto_fds (pc : PC) : (m.goto t pc).fds = m.fds := rfl

@[simp] theorem say_scripts (calls : List LogCall) :
    (m.say calls).scripts = m.scripts := rfl

@[simp] theorem say_threads (calls : List LogCall) :
    (m.say calls).threads = m.threads := rfl

@[simp] theorem say_fds (calls : List LogCall) : (m.say calls).fds = m.fds := rfl

@[simp] theorem updateScript_scripts (f : BurninScript -> BurninScript) :
    (m.updateScript i f).scripts = m.scripts.modify i f := rfl

@[simp] theorem updateScript_threads (f : BurninScript -> BurninScript) :
    (m.updateScript i f).threads = m.threads := rfl

@[simp] theorem updateScript_fds (f : BurninScript -> BurninScript) :
    (m.updateScript i f).fds = m.fds := rfl

@[simp] theorem closeRead_scripts : (closeRead m fp).scripts = m.scripts := rfl

@[simp] theorem closeRead_threads : (closeRead m fp).threads = m.threads := rfl

@[simp] theorem closeRead_fds :
    (closeRead m fp).fds = m.fds.erase (.readEnd fp) := rfl

@[simp] theorem openPipe_scripts (caller : Caller) :
    (openPipe m pipe caller).scripts = m.scripts := rfl

@[simp] theorem openPipe_threads (caller : Caller) :
    (openPipe m pipe caller).threads = m.threads := rfl

@[simp] theorem openPipe_fds (caller : Caller) :
    (openPipe m pipe caller).fds = m.fds ++ [.readEnd pipe, .writeEnd pipe] :=
  rfl

@[simp] theorem forkTail_scripts (pid : Int) (out : ForkOutcome) :
    (forkTail m pipe pid out).1.scripts = m.scripts := by
  unfold forkTail
  split <;> rfl

@[simp] theorem forkTail_threads (pid : Int) (out : ForkOutcome) :
    (forkTail m pipe pid out).1.threads = m.threads := by
  unfold forkTail
  split <;> rfl

end Projections

/-- The value `fork_cmd` returns for the pipe and the process id it got. -/
def forkReturn (pipe : Nat) (pid : Int) (out : ForkOutcome) : ForkReturn :=
  if out.fcntl then
    { fp := if out.fdopen then some pipe else none, stored := some pid }
  else
    { fp := none, stored := none }

theorem forkTail_return (m : Memory) (pipe : Nat) (pid : Int)
    (out : ForkOutcome) :
    (forkTail m pipe pid out).2 = forkReturn pipe pid out := by
  unfold forkTail forkReturn
  split <;> rfl

theorem forkReturn_fp {pipe k : Nat} {pid : Int} {out : ForkOutcome}
    (h : (forkReturn pipe pid out).fp = some k) :
    k = pipe ∧ (forkReturn pipe pid out).stored = some pid := by
  unfold forkReturn at h ⊢
  split at h
  · rename_i hfcntl
    rw [if_pos hfcntl]
    simp only at h
    split at h
    · exact ⟨(Option.some.inj h).symm, rfl⟩
    · cases h
  · cases h

def HelperPC.Follows (pid : Int) (fp : Nat) (pc : HelperPC) : Prop :=
  pc = .drain pid fp ∨ pc = .reap pid fp

/-- The label of a move: for a call of `fork_cmd` its caller, the new pipe and
the value of `pid` in the caller. -/
abbrev MoveLabel := Option (Caller × Nat × Int)

inductive Move (scripts : List BurninScript) :
    MoveLabel -> PC -> List BurninScript -> PC -> Prop where
  | launched {i pipe : Nat} {pid : Int} {script : BurninScript}
      (ret : ForkReturn) :
      scripts[i]? = some script ->
      script.running = 0 ->
      (forall k, ret.fp = some k -> k = pipe ∧ ret.stored = some pid) ->
      Move scripts (some (.burnin i, pipe, pid)) (.launch i)
        (scripts.modify i (launchedSlot ret)) (.launch (i + 1))
  | follow {x : Helper} {pipe : Nat} {pid : Int} :
      Move scripts (some (.helper x, pipe, pid)) (.helper x .fork) scripts
        (.helper x (.drain pid pipe))
  | unfollowed {x : Helper} {pipe : Nat} {pid : Int} {pc' : PC} :
      pc' = .helper x .done ∨ x = .hardware ∧ pc' = .launch 0 ->
      Move scripts (some (.helper x, pipe, pid)) (.helper x .fork) scripts pc'
  | skipped {i : Nat} {script : BurninScript} :
      scripts[i]? = some script ->
      script.running ≠ 0 ->
      Move scripts none (.launch i) scripts (.launch (i + 1))
  | polling {i : Nat} :
      scripts[i]? = none ->
      Move scripts none (.launch i) scripts (.poll 0)
  | asleep {i : Nat} :
      scripts[i]? = none ->
      Move scripts none (.poll i) scripts .sleep
  | passed {i : Nat} {script : BurninScript} :
      scripts[i]? = some script ->
      script.running ≤ 0 ∨ script.fpStdout = none ->
      Move scripts none (.poll i) scripts (.poll (i + 1))
  | draining {i fp : Nat} {script : BurninScript} :
      scripts[i]? = some script ->
      0 < script.running ->
      script.fpStdout = some fp ->
      Move scripts none (.poll i) scripts (.drain i)
  | delivered {i : Nat} {script : BurninScript} (data : List Char) :
      scripts[i]? = some script ->
      Move scripts none (.drain i)
        (scripts.modify i fun sc => deliver sc data) (.drain i)
  | dry {i : Nat} :
      Move scripts none (.drain i) scripts (.reap i)
  | classified {i : Nat} {script : BurninScript} (res : WaitOutcome) :
      scripts[i]? = some script ->
      Move scripts none (.reap i)
        (scripts.modify i fun sc => classify sc res) (.poll (i + 1))
  | woken :
      Move scripts none .sleep scripts (.launch 0)
  | helper {x : Helper} {pc pc' : HelperPC} :
      (forall pid fp, pc'.Follows pid fp -> pc.Follows pid fp) ->
      Move scripts none (.helper x pc) scripts (.helper x pc')
  | burnin {pc : HelperPC} :
      Move scripts none (.helper .hardware pc) scripts (.launch 0)

theorem Move.helper_scripts {scripts scripts' : List BurninScript} {x : Helper}
    {pipe : Nat} {pid : Int} {pc pc' : PC}
    (h : Move scripts (some (.helper x, pipe, pid)) pc scripts' pc') :
    scripts' = scripts := by
  cases h with
  | follow => rfl
  | unfollowed hplace => rfl

theorem helperDone_place (m : Memory) (t : Nat) (x : Helper) :
    (helperDone m t x).scripts = m.scripts ∧
      exists pc', (helperDone m t x).threads = m.threads.set t pc' ∧
        (pc' = .helper x .done ∨ x = .hardware ∧ pc' = .launch 0) := by
  cases x with
  | hardware => exact ⟨rfl, .launch 0, rfl, Or.inr ⟨rfl, rfl⟩⟩
  | dumpLog d => exact ⟨rfl, .helper (.dumpLog d) .done, rfl, Or.inl rfl⟩

theorem helperDone_move (m : Memory) (t : Nat) (x : Helper) (pc : HelperPC) :
    exists pc', (helperDone m t x).threads = m.threads.set t pc' ∧
      Move m.scripts none (.helper x pc) (helperDone m t x).scripts pc' := by
  rcases helperDone_place m t x with ⟨hscripts, pc', hthreads, hpc'⟩
  refine ⟨pc', hthreads, ?_⟩
  rw [hscripts]
  rcases hpc' with heq | ⟨hx, heq⟩
  · rw [heq]
    apply Move.helper
    intro pid fp hfollow
    rcases hfollow with hdrain | hreap <;> contradiction
  · rw [hx, heq]
    exact Move.burnin

theorem callerAt_some {m : Memory} {pc : PC} {caller : Caller}
    (h : callerAt m pc = some caller) :
    (exists i script, pc = .launch i ∧ caller = .burnin i ∧
      m.scripts[i]? = some script ∧ script.running = 0) ∨
    (exists x, pc = .helper x .fork ∧ caller = .helper x) := by
  unfold callerAt at h
  split at h
  · rename_i i
    split at h
    · cases h
    · rename_i script hscript
      split at h
      · rename_i hrunning
        left
        exact ⟨i, script, rfl, (Option.some.inj h).symm, hscript, hrunning⟩
      · cases h
  · rename_i x
    right
    exact ⟨x, rfl, (Option.some.inj h).symm⟩
  · cases h

@[simp] theorem forkReturned_burnin_scripts (m : Memory) (t pipe i : Nat)
    (pid : Int) (out : ForkOutcome) :
    (forkReturned m t pipe pid (.burnin i) out).scripts =
      m.scripts.modify i (launchedSlot (forkReturn pipe pid out)) := by
  simp [forkReturned, returnTo, forkTail_return]

@[simp] theorem forkReturned_burnin_threads (m : Memory) (t pipe i : Nat)
    (pid : Int) (out : ForkOutcome) :
    (forkReturned m t pipe pid (.burnin i) out).threads =
      m.threads.set t (.launch (i + 1)) := by
  simp [forkReturned, returnTo]

theorem forkReturned_helper (m : Memory) (t pipe : Nat) (pid : Int)
    (x : Helper) (out : ForkOutcome) :
    forkReturned m t pipe pid (.helper x) out =
        (forkTail m pipe pid out).1.goto t (.helper x (.drain pid pipe)) ∨
      forkReturned m t pipe pid (.helper x) out =
        helperDone (forkTail m pipe pid out).1 t x := by
  have hret := forkTail_return m pipe pid out
  cases hfp : (forkReturn pipe pid out).fp with
  | none =>
      right
      simp only [forkReturned, returnTo, hret, hfp]
  | some k =>
      left
      rcases forkReturn_fp hfp with ⟨hk, hstored⟩
      simp only [forkReturned, returnTo, hret, hfp, hstored, hk,
        Option.getD_some]

theorem forkReturned_move {m : Memory} {pc : PC} {caller : Caller}
    (h : callerAt m pc = some caller) (t pipe : Nat) (pid : Int)
    (out : ForkOutcome) :
    exists pc', (forkReturned (openPipe m pipe caller) t pipe pid caller
        out).threads = m.threads.set t pc' ∧
      Move m.scripts (some (caller, pipe, pid)) pc
        (forkReturned (openPipe m pipe caller) t pipe pid caller out).scripts
        pc' := by
  rcases callerAt_some h with
    ⟨i, script, hpc, hcaller, hscript, hrunning⟩ | ⟨x, hpc, hcaller⟩
  · refine ⟨.launch (i + 1), by simp [hcaller], ?_⟩
    rw [hpc, hcaller, forkReturned_burnin_scripts]
    apply Move.launched _ hscript hrunning
    intro k hk
    exact forkReturn_fp hk
  · rw [hpc, hcaller]
    rcases forkReturned_helper (openPipe m pipe (.helper x)) t pipe pid x out
      with hfollow | hdone
    · rw [hfollow]
      refine ⟨.helper x (.drain pid pipe), by simp, ?_⟩
      simpa using Move.follow
    · rw [hdone]
      rcases helperDone_place
        (forkTail (openPipe m pipe (.helper x)) pipe pid out).1 t x
        with ⟨hscripts, pc', hthreads, hpc'⟩
      rw [forkTail_threads, openPipe_threads] at hthreads
      rw [forkTail_scripts, openPipe_scripts] at hscripts
      refine ⟨pc', hthreads, ?_⟩
      rw [hscripts]
      exact Move.unfollowed hpc'

theorem launchVisit_move {m m' : Memory} {t i : Nat}
    (h : launchVisit m t i = some m') :
    exists pc', m'.threads = m.threads.set t pc' ∧
      Move m.scripts none (.launch i) m'.scripts pc' := by
  unfold launchVisit at h
  split at h
  · rename_i hscript
    cases h
    exact ⟨_, rfl, Move.polling hscript⟩
  · rename_i script hscript
    split at h
    · cases h
    · rename_i hrunning
      cases h
      exact ⟨_, rfl, Move.skipped hscript hrunning⟩

theorem pollVisit_move (m : Memory) (t i : Nat) :
    exists pc', (pollVisit m t i).threads = m.threads.set t pc' ∧
      Move m.scripts none (.poll i) (pollVisit m t i).scripts pc' := by
  unfold pollVisit
  split
  · rename_i hscript
    exact ⟨_, rfl, Move.asleep hscript⟩
  · rename_i script hscript
    split
    · rename_i hrunning
      split
      · rename_i hfp
        exact ⟨_, rfl, Move.passed hscript (Or.inr hfp)⟩
      · rename_i fp hfp
        exact ⟨_, rfl, Move.draining hscript hrunning hfp⟩
    · rename_i hrunning
      exact ⟨_, rfl, Move.passed hscript (Or.inl (Int.not_lt.mp hrunning))⟩

theorem drained_move {m m' : Memory} {t : Nat} {pc : PC}
    {line : Option (List Char)} (hpc : m.threads[t]? = some pc)
    (h : drained m t line pc = some m') :
    exists pc', m'.threads = m.threads.set t pc' ∧
      Move m.scripts none pc m'.scripts pc' := by
  have hsame : m.threads.set t pc = m.threads := by
    apply List.ext_getElem?
    intro q
    rw [List.getElem?_set]
    split
    · rename_i hq
      rw [← hq, hpc]
      simp [(List.getElem?_eq_some_iff.mp hpc).choose]
    · rfl
  unfold drained at h
  split at h
  · rename_i i
    split at h
    · cases h
    · cases h
      exact ⟨_, rfl, Move.dry⟩
    · rename_i script data hscript
      cases h
      exact ⟨.drain i, hsame.symm, Move.delivered data hscript⟩
  · rename_i x pid fp
    split at h
    · cases h
      refine ⟨_, rfl, Move.helper ?_⟩
      intro pid' fp' hfollow
      rcases hfollow with hdrain | hreap
      · cases hdrain
      · cases hreap
        exact Or.inl rfl
    · cases h
      exact ⟨_, hsame.symm, Move.helper fun _ _ hfollow => hfollow⟩
  · cases h

@[simp] theorem pollWaited_scripts (m : Memory) (t i fp : Nat)
    (script : BurninScript) (res : WaitOutcome) :
    (pollWaited m t i script fp res).scripts =
      m.scripts.modify i fun sc => classify sc res := by
  cases res <;> rfl

@[simp] theorem pollWaited_threads (m : Memory) (t i fp : Nat)
    (script : BurninScript) (res : WaitOutcome) :
    (pollWaited m t i script fp res).threads =
      m.threads.set t (.poll (i + 1)) := by
  cases res <;> rfl

theorem waited_move {m m' : Memory} {t : Nat} {pc : PC} {res : WaitOutcome}
    (h : waited m t res pc = some m') :
    exists pc', m'.threads = m.threads.set t pc' ∧
      Move m.scripts none pc m'.scripts pc' := by
  unfold waited at h
  split at h
  · rename_i i
    split at h
    · rename_i script hscript
      split at h
      · rename_i fp hfp
        cases h
        refine ⟨_, pollWaited_threads _ _ _ _ _ _, ?_⟩
        rw [pollWaited_scripts]
        exact Move.classified res hscript
      · cases h
    · cases h
  · rename_i x pid fp
    cases h
    unfold helperWaited
    split
    · refine ⟨_, rfl, Move.helper ?_⟩
      intro pid' fp' hfollow
      rcases hfollow with hdrain | hreap
      · cases hdrain
        exact Or.inr rfl
      · cases hreap
    · exact helperDone_move ((closeRead m fp).say (helperFinished x)) t x _
  · cases h

/-!
# The moves of a step
-/

theorem launchVisit_fds {m m' : Memory} {t i : Nat}
    (h : launchVisit m t i = some m') : m'.fds = m.fds := by
  unfold launchVisit at h
  split at h
  · cases h
    rfl
  · split at h
    · cases h
    · cases h
      rfl

theorem pollVisit_fds (m : Memory) (t i : Nat) :
    (pollVisit m t i).fds = m.fds := by
  unfold pollVisit
  split
  · rfl
  · split
    · split <;> rfl
    · rfl

theorem drained_fds {m m' : Memory} {t : Nat} {pc : PC}
    {line : Option (List Char)} (h : drained m t line pc = some m') :
    m'.fds = m.fds := by
  unfold drained at h
  split at h
  · split at h
    · cases h
    · cases h
      rfl
    · cases h
      rfl
  · split at h
    · cases h
      rfl
    · cases h
      rfl
  · cases h

def Calls : Action -> Prop
  | .forkCmd p _ _ _ => p = 0
  | .waitpid p _ _ => p = 0
  | _ => False

theorem Calls.not_foreign {a : Action} (h : Calls a) : ¬ Foreign a := by
  cases a with
  | forkCmd p t caller out => exact fun hf => hf h
  | waitpid p t res => exact fun hf => hf h
  | _ => exact h.elim

/-- What a step without such a call does to process 0: nothing, the start of a
`dump_log` thread, or a move that leaves the descriptors alone. -/
inductive Quiet (v : View) (a : Action) (v' : View) : Prop where
  | idle :
      v'.mem = v.mem ->
      a ≠ .dumpLog ->
      (forall t, a ≠ .wake 0 t) ->
      Quiet v a v'
  | dumpLog :
      a = .dumpLog ->
      v'.mem.scripts = v.mem.scripts ->
      v'.mem.threads = v.mem.threads ++
        [.helper (.dumpLog v.mem.threads.length) .fork] ->
      v'.mem.fds = v.mem.fds ->
      Quiet v a v'
  | move {t : Nat} {pc pc' : PC} :
      ¬ Foreign a ->
      v.mem.threads[t]? = some pc ->
      v'.mem.threads = v.mem.threads.set t pc' ->
      Move v.mem.scripts none pc v'.mem.scripts pc' ->
      v'.mem.fds = v.mem.fds ->
      (forall i, pc ≠ .reap i) ->
      (pc = .sleep -> a = .wake 0 t) ->
      (forall q, a = .wake 0 q -> q = t) ->
      Quiet v a v'

theorem drainArg_place {m : Memory} {pc : PC} {fp : Nat}
    (h : drainArg m pc = some fp) :
    (forall i, pc ≠ .reap i) ∧ pc ≠ .sleep := by
  constructor
  · intro i heq
    rw [heq] at h
    cases h
  · intro heq
    rw [heq] at h
    cases h

theorem RootStep.quiet {v v' : View} {a : Action} (h : RootStep v a v')
    (hcalls : ¬ Calls a) : Quiet v a v' := by
  cases h with
  | foreign extra hf hnone hlen =>
      refine Quiet.idle rfl ?_ ?_
      · intro heq
        rw [heq] at hf
        exact hf
      · intro t heq
        rw [heq] at hf
        exact hf rfl
  | execve hp => exact Quiet.idle rfl (by simp) (by simp)
  | write out hout => exact Quiet.idle rfl (by simp) (by simp)
  | exit halive => exact Quiet.idle rfl (by simp) (by simp)
  | dumpLog => exact Quiet.dumpLog rfl rfl rfl rfl
  | launch hpc hvisit =>
      rcases launchVisit_move hvisit with ⟨pc', hthreads, hmove⟩
      exact Quiet.move (fun hf => hf rfl) hpc hthreads hmove
        (launchVisit_fds hvisit) (by simp) (by simp) (by simp)
  | poll hpc =>
      rcases pollVisit_move v.mem _ _ with ⟨pc', hthreads, hmove⟩
      exact Quiet.move (fun hf => hf rfl) hpc hthreads hmove
        (pollVisit_fds _ _ _) (by simp) (by simp) (by simp)
  | drained hpc hfp hpipe hempty hdrained =>
      rcases drained_move hpc hdrained with ⟨pc', hthreads, hmove⟩
      rcases drainArg_place hfp with ⟨hreap, hsleep⟩
      exact Quiet.move (fun hf => hf rfl) hpc hthreads hmove
        (drained_fds hdrained) hreap (fun heq => absurd heq hsleep) (by simp)
  | line hpc hfp hpipe hline hdrained =>
      rcases drained_move hpc hdrained with ⟨pc', hthreads, hmove⟩
      rcases drainArg_place hfp with ⟨hreap, hsleep⟩
      exact Quiet.move (fun hf => hf rfl) hpc hthreads hmove
        (drained_fds hdrained) hreap (fun heq => absurd heq hsleep) (by simp)
  | wake hpc =>
      exact Quiet.move (fun hf => hf rfl) hpc rfl Move.woken rfl (by simp)
        (fun _ => rfl) (by simp)
  | _ => exact absurd rfl hcalls

/-- Only a call of `fork_cmd` has a label: its caller and the pipe it opened. -/
def Labels (v : View) (a : Action) (v' : View) (label : MoveLabel) : Prop :=
  forall caller pipe pid, label = some (caller, pipe, pid) ->
    pipe = v.pipes.length ∧ v'.pipes.length = v.pipes.length + 1 ∧
      exists t out, a = .forkCmd 0 t caller out

theorem labels_none (v : View) (a : Action) (v' : View) : Labels v a v' none := by
  intro caller pipe pid h
  cases h

theorem labels_fork {v v' : View} {t : Nat} {caller : Caller} {pid : Int}
    {out : ForkOutcome} (h : v'.pipes.length = v.pipes.length + 1) :
    Labels v (.forkCmd 0 t caller out) v'
      (some (caller, v.pipes.length, pid)) := by
  intro caller' pipe pid' heq
  cases heq
  exact ⟨rfl, h, t, out, rfl⟩

/-- What a step of the first process or of its surroundings does to its threads
and to the table. -/
theorem RootStep.move {v v' : View} {a : Action} (h : RootStep v a v') :
    (v'.mem.threads = v.mem.threads ∧ v'.mem.scripts = v.mem.scripts) ∨
    (a = .dumpLog ∧ v'.mem.scripts = v.mem.scripts ∧
      v'.mem.threads = v.mem.threads ++
        [.helper (.dumpLog v.mem.threads.length) .fork]) ∨
    (exists t label pc pc', v.mem.threads[t]? = some pc ∧
      v'.mem.threads = v.mem.threads.set t pc' ∧
        Move v.mem.scripts label pc v'.mem.scripts pc' ∧
          Labels v a v' label) := by
  by_cases hcalls : Calls a
  · right
    right
    cases h with
    | foreign extra hf hnone hlen => exact absurd hf hcalls.not_foreign
    | forkFailed hpc hcaller hchild =>
        rcases forkReturned_move hcaller _ _ _ _ with ⟨pc', hthreads, hmove⟩
        exact ⟨_, _, _, pc', hpc, hthreads, hmove, labels_fork (by simp)⟩
    | forked hpc hcaller hchild hpos hfree =>
        rcases forkReturned_move hcaller _ _ _ _ with ⟨pc', hthreads, hmove⟩
        exact ⟨_, _, _, pc', hpc, hthreads, hmove, labels_fork (by simp)⟩
    | waitError hpc harg hnone hwaited =>
        rcases waited_move hwaited with ⟨pc', hthreads, hmove⟩
        exact ⟨_, _, _, pc', hpc, hthreads, hmove, labels_none v _ _⟩
    | waitNochange hpc harg hsome hnone hwaited =>
        rcases waited_move hwaited with ⟨pc', hthreads, hmove⟩
        exact ⟨_, _, _, pc', hpc, hthreads, hmove, labels_none v _ _⟩
    | waitReaped hpc harg hchild hselect hlife hwaited =>
        rcases waited_move hwaited with ⟨pc', hthreads, hmove⟩
        exact ⟨_, _, _, pc', hpc, hthreads, hmove, labels_none v _ _⟩
    | _ => exact hcalls.elim
  · cases h.quiet hcalls with
    | idle hmem => exact Or.inl ⟨by rw [hmem], by rw [hmem]⟩
    | dumpLog ha hscripts hthreads hfds =>
        exact Or.inr (Or.inl ⟨ha, hscripts, hthreads⟩)
    | move hforeign hpc hthreads hmove =>
        exact Or.inr (Or.inr ⟨_, none, _, _, hpc, hthreads, hmove,
          labels_none v a v'⟩)

end Scheduler
end Breakin
