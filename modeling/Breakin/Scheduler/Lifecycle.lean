import Breakin.Foundation.Refinement
import Breakin.Scheduler.Accounting
import Breakin.Scheduler.Disabling

/-!
# The life of one test

What the scheduler is for, seen from one test: it is idle, running or disabled, a
launch takes it from idle to running, and a verdict ends the running.  Every run
of the scheduler is such a life for each of its tests, whatever fails and whoever
else takes steps.
-/

namespace Breakin
namespace Scheduler

open Foundation

/-!
# The abstract system
-/

inductive Stage where
  | idle
  | running
  | disabled
deriving DecidableEq

/-- How a running test ends: counted as a pass or as a failure, counted as a pass
and never run again, or killed by a signal and never run again. -/
inductive Verdict where
  | pass
  | fail
  | retire
  | kill
deriving DecidableEq

inductive LifeEvent where
  | launch
  | verdict (v : Verdict)
deriving DecidableEq

structure TestLife where
  stage : Stage
  launches : Nat
  passes : Nat
  fails : Nat
  kills : Nat
  lastFailed : Bool
deriving DecidableEq

def TestLife.start : TestLife where
  stage := .idle
  launches := 0
  passes := 0
  fails := 0
  kills := 0
  lastFailed := false

def TestLife.judged (l : TestLife) : Verdict -> TestLife
  | .pass =>
      { l with stage := .idle, passes := l.passes + 1, lastFailed := false }
  | .fail =>
      { l with stage := .idle, fails := l.fails + 1, lastFailed := true }
  | .retire =>
      { l with stage := .disabled, passes := l.passes + 1, lastFailed := false }
  | .kill => { l with stage := .disabled, kills := l.kills + 1 }

def lifeStep (l : TestLife) : LifeEvent -> Option TestLife
  | .launch =>
      match l.stage with
      | .idle => some { l with stage := .running, launches := l.launches + 1 }
      | _ => none
  | .verdict v =>
      match l.stage with
      | .running => some (l.judged v)
      | _ => none

def TestLife.Settled (l : TestLife) : Prop :=
  l.launches =
    l.passes + l.fails + l.kills + if l.stage = .running then 1 else 0

theorem lifeStep_launch {l l' : TestLife} (h : lifeStep l .launch = some l') :
    l.stage = .idle ∧
      l' = { l with stage := .running, launches := l.launches + 1 } := by
  unfold lifeStep at h
  cases hstage : l.stage <;> rw [hstage] at h
  · exact ⟨rfl, (Option.some.inj h).symm⟩
  · cases h
  · cases h

theorem lifeStep_verdict {l l' : TestLife} {v : Verdict}
    (h : lifeStep l (.verdict v) = some l') :
    l.stage = .running ∧ l' = l.judged v := by
  unfold lifeStep at h
  cases hstage : l.stage <;> rw [hstage] at h
  · cases h
  · exact ⟨rfl, (Option.some.inj h).symm⟩
  · cases h

theorem TestLife.Settled.step {l l' : TestLife} {e : LifeEvent}
    (h : l.Settled) (hstep : lifeStep l e = some l') : l'.Settled := by
  unfold Settled at h ⊢
  cases e with
  | launch =>
      rcases lifeStep_launch hstep with ⟨hstage, hl⟩
      rw [hstage] at h
      rw [hl]
      simp at h ⊢
      omega
  | verdict v =>
      rcases lifeStep_verdict hstep with ⟨hstage, hl⟩
      rw [hstage] at h
      rw [hl]
      cases v <;> simp [judged] at h ⊢ <;> omega

theorem settled_run {evs : List LifeEvent} {l : TestLife}
    (h : runFrom lifeStep .start evs = some l) : l.Settled :=
  runFrom_history (R := fun _ l => l.Settled) rfl
    (fun _ _ _ _ _ ih hstep => ih.step hstep) h

theorem launches_run {evs : List LifeEvent} {l : TestLife}
    (h : runFrom lifeStep .start evs = some l) :
    l.launches = evs.countP (fun e => e = .launch) ∧
      l.kills = evs.countP (fun e => e = .verdict .kill) := by
  refine runFrom_history (R := fun evs l =>
    l.launches = evs.countP (fun e => e = .launch) ∧
      l.kills = evs.countP (fun e => e = .verdict .kill)) ⟨rfl, rfl⟩ ?_ h
  intro evs e l l' _ ih hstep
  rw [List.countP_append, List.countP_append, ← ih.left, ← ih.right]
  cases e with
  | launch =>
      rw [(lifeStep_launch hstep).right]
      exact ⟨rfl, rfl⟩
  | verdict v =>
      rw [(lifeStep_verdict hstep).right]
      cases v <;> exact ⟨rfl, rfl⟩

/-!
# What a step of the scheduler is to one test
-/

def verdictOf : WaitOutcome -> Option Verdict
  | .error => some .pass
  | .nochange => none
  | .status (.signaled _) => some .kill
  | .status (.exited code) =>
      if code = 255 then some .retire
      else if code = 0 then some .pass
      else some .fail

def waitEvents (i : Nat) (w : World) (res : WaitResult) : PC -> List LifeEvent
  | .reap j =>
      if j = i then
        ((verdictOf (waitOutcome w res)).map LifeEvent.verdict).toList
      else []
  | _ => []

/-- The first process launches script `i`, or its `waitpid` for that script
returns. -/
def lifeEvents (i : Nat) (w : World) : Action -> List LifeEvent
  | .forkCmd p _ caller _ =>
      if p = 0 ∧ caller = .burnin i then [.launch] else []
  | .waitpid p t res =>
      match w.at? p t with
      | some (_, pc) => if p = 0 then waitEvents i w res pc else []
      | none => []
  | _ => []

/-- The table entry holds the life of its test; the counters are 64 bits wide. -/
structure HoldsLife (script : BurninScript) (l : TestLife) : Prop where
  running : script.running =
    match l.stage with
    | .idle => 0
    | .running => 1
    | .disabled => -1
  passCount : script.passCount = UInt64.ofNat l.passes
  failCount : script.failCount = UInt64.ofNat l.fails
  lastResult : script.lastResult = if l.lastFailed then 1 else 0

theorem holdsLife_found (name : CString) :
    HoldsLife (BurninScript.found name) .start :=
  ⟨rfl, rfl, rfl, rfl⟩

theorem HoldsLife.launched {script : BurninScript} {l : TestLife}
    (h : HoldsLife script l) (hidle : script.running = 0) (ret : ForkReturn) :
    exists l', lifeStep l .launch = some l' ∧
      HoldsLife (launchedSlot ret script) l' := by
  have hrunning := h.running
  rw [hidle] at hrunning
  cases hstage : l.stage <;> rw [hstage] at hrunning
  · refine ⟨{ l with stage := .running, launches := l.launches + 1 }, ?_, ?_⟩
    · simp [lifeStep, hstage]
    · exact ⟨rfl, h.passCount, h.failCount, h.lastResult⟩
  · cases hrunning
  · cases hrunning

theorem HoldsLife.classified {script : BurninScript} {l : TestLife}
    (h : HoldsLife script l) (hrun : script.running = 1) (res : WaitOutcome) :
    exists l', runFrom lifeStep l
        ((verdictOf res).map LifeEvent.verdict).toList = some l' ∧
      HoldsLife (classify script res) l' := by
  have hrunning := h.running
  rw [hrun] at hrunning
  have hstage : l.stage = .running := by
    cases hs : l.stage with
    | idle => rw [hs] at hrunning; cases hrunning
    | running => rfl
    | disabled => rw [hs] at hrunning; cases hrunning
  have hstep : forall v, runFrom lifeStep l [.verdict v] = some (l.judged v) := by
    intro v
    simp [runFrom, lifeStep, hstage]
  have hpass : script.passCount + 1 = UInt64.ofNat (l.passes + 1) := by
    rw [h.passCount, UInt64.ofNat_add]
    rfl
  have hfail : script.failCount + 1 = UInt64.ofNat (l.fails + 1) := by
    rw [h.failCount, UInt64.ofNat_add]
    rfl
  cases res with
  | error => exact ⟨_, hstep .pass, ⟨rfl, hpass, h.failCount, rfl⟩⟩
  | nochange => exact ⟨l, rfl, h⟩
  | status st =>
      cases st with
      | signaled sig =>
          exact ⟨_, hstep .kill, ⟨rfl, h.passCount, h.failCount, h.lastResult⟩⟩
      | exited code =>
          by_cases hretire : code = 255
          · rw [show verdictOf (.status (.exited code)) = some .retire from
              if_pos hretire]
            refine ⟨_, hstep .retire, ?_⟩
            simp only [classify, if_pos hretire]
            exact ⟨rfl, hpass, h.failCount, rfl⟩
          · by_cases hzero : code = 0
            · rw [show verdictOf (.status (.exited code)) = some .pass from
                (if_neg hretire).trans (if_pos hzero)]
              refine ⟨_, hstep .pass, ?_⟩
              simp only [classify, if_neg hretire, if_pos hzero]
              exact ⟨rfl, hpass, h.failCount, rfl⟩
            · rw [show verdictOf (.status (.exited code)) = some .fail from
                (if_neg hretire).trans (if_neg hzero)]
              refine ⟨_, hstep .fail, ?_⟩
              simp only [classify, if_neg hretire, if_neg hzero]
              exact ⟨rfl, h.passCount, hfail, rfl⟩

theorem modify_same {scripts : List BurninScript} {i : Nat}
    {f : BurninScript -> BurninScript} {script : BurninScript}
    (h : scripts[i]? = some script) :
    (scripts.modify i f)[i]? = some (f script) := by
  simp [h]

theorem lifeEvents_quiet {a : Action} (hcalls : ¬ Calls a) (i : Nat)
    (w : World) : lifeEvents i w a = [] := by
  cases a with
  | forkCmd p t caller out =>
      exact if_neg fun h => hcalls h.left
  | waitpid p t res =>
      unfold lifeEvents
      simp only
      cases w.at? p t with
      | none => rfl
      | some place => exact if_neg hcalls
  | _ => rfl

theorem Move.keepsLife {scripts scripts' : List BurninScript} {pc pc' : PC}
    (h : Move scripts none pc scripts' pc') (hreap : forall i, pc ≠ .reap i)
    {i : Nat} {script : BurninScript} {l : TestLife}
    (hscript : scripts[i]? = some script) (hlife : HoldsLife script l) :
    exists script', scripts'[i]? = some script' ∧ HoldsLife script' l := by
  cases h with
  | delivered data hold =>
      rename_i j old
      by_cases hj : j = i
      · subst hj
        exact ⟨_, modify_same hscript, ⟨hlife.running, hlife.passCount,
          hlife.failCount, hlife.lastResult⟩⟩
      · exact ⟨script, (modify_other hj).trans hscript, hlife⟩
  | classified res hold => exact absurd rfl (hreap _)
  | _ => exact ⟨script, hscript, hlife⟩

theorem waitOutcome_reaped {w : World} {v : View} (hview : ViewOf w v) {j : Nat}
    {c : Child} {st : WaitStatus} (hc : v.Has j c) (hlife : c.life = .zombie st) :
    waitOutcome w (.reaped j) = .status st := by
  rcases hview.has_iff.mp hc with ⟨pr, hproc, hchild⟩
  have hpr := (childOf_some_iff.mp hchild).right.right.trans hlife
  cases pr
  cases hpr
  simp [waitOutcome, hproc]

section Steps

variable {w : World} {v v' : View} {i : Nat} {script : BurninScript}
  {l : TestLife}

theorem HoldsLife.fork {t : Nat} {pc : PC} {caller : Caller} (pid : Int)
    (out : ForkOutcome) (hcaller : callerAt v.mem pc = some caller)
    (hmem : v'.mem = forkReturned (openPipe v.mem v.pipes.length caller) t
      v.pipes.length pid caller out)
    (hscript : v.mem.scripts[i]? = some script) (h : HoldsLife script l) :
    exists l' script',
      runFrom lifeStep l (lifeEvents i w (.forkCmd 0 t caller out)) = some l' ∧
        v'.mem.scripts[i]? = some script' ∧ HoldsLife script' l' := by
  rcases callerAt_some hcaller with
    ⟨j, old, _, hburnin, hold, hidle⟩ | ⟨x, _, hhelper⟩
  · subst hburnin
    rw [hmem, forkReturned_burnin_scripts, openPipe_scripts]
    by_cases hj : j = i
    · subst hj
      rw [hold] at hscript
      cases hscript
      rcases h.launched hidle (forkReturn v.pipes.length pid out) with
        ⟨l', hstep, hholds⟩
      refine ⟨l', _, ?_, modify_same hold, hholds⟩
      rw [show lifeEvents j w (.forkCmd 0 t (.burnin j) out) = [.launch] from
        if_pos ⟨rfl, rfl⟩]
      exact runFrom_cons_some.mpr ⟨l', hstep, rfl⟩
    · refine ⟨l, script, ?_, (modify_other hj).trans hscript, h⟩
      rw [show lifeEvents i w (.forkCmd 0 t (.burnin j) out) = [] from
        if_neg fun heq => hj (Caller.burnin.inj heq.right)]
      rfl
  · subst hhelper
    rcases forkReturned_move hcaller t v.pipes.length pid out with
      ⟨pc', _, hmove⟩
    rw [← hmem] at hmove
    refine ⟨l, script, ?_, by rw [hmove.helper_scripts]; exact hscript, h⟩
    simp [lifeEvents]

theorem HoldsLife.wait (hview : ViewOf w v) (hcontrol : Control v.mem) {t : Nat}
    {pc : PC} {pid : Int} {res : WaitResult}
    (hpc : v.mem.threads[t]? = some pc) (harg : waitArg v.mem pc = some pid)
    (hwaited : waited v.mem t (waitOutcome w res) pc = some v'.mem)
    (hscript : v.mem.scripts[i]? = some script) (h : HoldsLife script l) :
    exists l' script',
      runFrom lifeStep l (lifeEvents i w (.waitpid 0 t res)) = some l' ∧
        v'.mem.scripts[i]? = some script' ∧ HoldsLife script' l' := by
  have hat := at?_some_iff.mpr ⟨hview.memory, hpc⟩
  have hshown : lifeEvents i w (.waitpid 0 t res) = waitEvents i w res pc := by
    unfold lifeEvents
    simp only [hat, if_true]
  rw [hshown]
  cases pc with
  | reap j =>
      rw [waited_reap hwaited]
      by_cases hj : j = i
      · subst hj
        rcases hcontrol.reaping hpc harg with ⟨old, _, hold, hrun, _⟩
        rw [hold] at hscript
        cases hscript
        rcases h.classified hrun (waitOutcome w res) with ⟨l', hl, hholds⟩
        refine ⟨l', _, ?_, modify_same hold, hholds⟩
        rw [waitEvents, if_pos rfl]
        exact hl
      · refine ⟨l, script, ?_, (modify_other hj).trans hscript, h⟩
        rw [waitEvents, if_neg hj]
        rfl
  | helper x hpc' =>
      cases hpc' with
      | reap hpid fp =>
          rw [waited_helper_scripts hwaited]
          exact ⟨l, script, rfl, hscript, h⟩
      | _ => cases harg
  | _ => cases harg

theorem HoldsLife.step {a : Action} (hview : ViewOf w v)
    (hcontrol : Control v.mem) (hroot : RootStep v a v')
    (hscript : v.mem.scripts[i]? = some script) (h : HoldsLife script l) :
    exists l' script', runFrom lifeStep l (lifeEvents i w a) = some l' ∧
      v'.mem.scripts[i]? = some script' ∧ HoldsLife script' l' := by
  by_cases hcalls : Calls a
  · cases hroot with
    | foreign extra hf => exact absurd hf hcalls.not_foreign
    | forkFailed hpc hcaller hchild => exact h.fork (-1) _ hcaller rfl hscript
    | forked hpc hcaller hchild hpos hfree =>
        exact h.fork _ _ hcaller rfl hscript
    | waitError hpc harg hnone hwaited =>
        exact h.wait hview hcontrol hpc harg hwaited hscript
    | waitNochange hpc harg hsome hnone hwaited =>
        exact h.wait hview hcontrol hpc harg hwaited hscript
    | waitReaped hpc harg hc hselect hlife hwaited =>
        rw [← waitOutcome_reaped hview hc hlife] at hwaited
        exact h.wait hview hcontrol hpc harg hwaited hscript
    | _ => exact hcalls.elim
  · rw [lifeEvents_quiet hcalls]
    have hkept : exists script', v'.mem.scripts[i]? = some script' ∧
        HoldsLife script' l := by
      cases hroot.quiet hcalls with
      | idle hmem =>
          rw [hmem]
          exact ⟨script, hscript, h⟩
      | dumpLog ha hscripts =>
          rw [hscripts]
          exact ⟨script, hscript, h⟩
      | move hforeign hpc hthreads hmove hfds hreap =>
          exact hmove.keepsLife hreap hscript h
    rcases hkept with ⟨script', hscript', hholds⟩
    exact ⟨l, script', rfl, hscript', hholds⟩

end Steps

/-!
# Every run
-/

def HasLife (i : Nat) (w : World) (l : TestLife) : Prop :=
  exists v script, ViewOf w v ∧ Control v.mem ∧
    v.mem.scripts[i]? = some script ∧ HoldsLife script l

theorem hasLife_start (pid : Nat) {tests : List CString} {i : Nat}
    (hi : i < tests.length) : HasLife i (start pid tests) .start := by
  refine ⟨_, BurninScript.found tests[i], viewOf_start pid tests,
    control_start tests, ?_, holdsLife_found _⟩
  simp [startView, hi]

theorem HasLife.step {i : Nat} {w w' : World} {l : TestLife} {a : Action}
    (h : HasLife i w l) (hstep : step w a = some w') :
    exists l', runFrom lifeStep l (lifeEvents i w a) = some l' ∧
      HasLife i w' l' := by
  rcases h with ⟨v, script, hview, hcontrol, hscript, hholds⟩
  rcases rootStep_of_step hview hcontrol.threads hstep with
    ⟨v', hview', hroot⟩
  rcases hholds.step hview hcontrol hroot hscript with
    ⟨l', script', hl, hscript', hholds'⟩
  exact ⟨l', hl, v', script', hview', hroot.control hcontrol, hscript',
    hholds'⟩

theorem hasLife_run {pid : Nat} {tests : List CString} {acts : List Action}
    {w : World} {i : Nat} (hi : i < tests.length)
    (hrun : run (start pid tests) acts = some w) :
    exists l, runFrom lifeStep .start
        (shown step (lifeEvents i) (start pid tests) acts) = some l ∧
      HasLife i w l :=
  refines_run (fun _ _ _ _ h hstep => h.step hstep) (hasLife_start pid hi) hrun

/-- Every run of the scheduler is a life of each of its tests, and the table holds
where that life has come to. -/
theorem scheduler_refines_lives {pid : Nat} {tests : List CString}
    {acts : List Action} {w : World} (hrun : run (start pid tests) acts = some w)
    {i : Nat} (hi : i < tests.length) :
    exists l m script,
      runFrom lifeStep .start
          (shown step (lifeEvents i) (start pid tests) acts) = some l ∧
        w.memory? 0 = some m ∧ m.scripts[i]? = some script ∧
          HoldsLife script l := by
  rcases hasLife_run hi hrun with
    ⟨l, hl, v, script, hview, _, hscript, hholds⟩
  exact ⟨l, v.mem, script, hl, hview.memory, hscript, hholds⟩

def failedOnceRun : List Action :=
  oneScriptRun ++
    [.exit 2 (.exited 1), .fgets 0 0, .waitpid 0 0 (.reaped 2), .visit 0 0,
      .wake 0 0, .forkCmd 0 0 (.burnin 0)
        { child := some 9, fcntl := true, fdopen := true }]

theorem scheduler_refines_lives_failedOnce :
    exists w l m script, run (start 1 ["hpl".toList]) failedOnceRun = some w ∧
      runFrom lifeStep .start
          (shown step (lifeEvents 0) (start 1 ["hpl".toList]) failedOnceRun) =
        some l ∧
      w.memory? 0 = some m ∧ m.scripts[0]? = some script ∧
        HoldsLife script l := by
  rcases @scheduler_refines_lives 1 ["hpl".toList] failedOnceRun _
    rfl 0 (by decide) with ⟨l, m, script, h⟩
  exact ⟨_, l, m, script, rfl, h⟩

/-!
# Every launch has its verdict
-/

def launchesTest (i : Nat) : Action -> Bool
  | .forkCmd p _ caller _ => decide (p = 0 ∧ caller = .burnin i)
  | _ => false

theorem lifeEvents_launch (i : Nat) (w : World) (a : Action) :
    (lifeEvents i w a).countP (fun e => e = .launch) =
      if launchesTest i a then 1 else 0 := by
  have hwait : forall (res : WaitResult) (pc : PC),
      (waitEvents i w res pc).countP (fun e => e = .launch) = 0 := by
    intro res pc
    cases pc with
    | reap j =>
        rw [waitEvents]
        split
        · cases verdictOf (waitOutcome w res) <;> rfl
        · rfl
    | _ => rfl
  cases a with
  | forkCmd p t caller out =>
      by_cases hown : p = 0 ∧ caller = .burnin i
      · simp [lifeEvents, launchesTest, hown]
      · simp [lifeEvents, launchesTest, hown]
  | waitpid p t res =>
      unfold lifeEvents
      simp only
      cases w.at? p t with
      | none => rfl
      | some place =>
          by_cases hp : p = 0
          · simp only [if_pos hp]
            exact hwait res place.2
          · simp only [if_neg hp]
            rfl
  | _ => rfl

def killsOf (i : Nat) (w : World) (acts : List Action) : Nat :=
  (shown step (lifeEvents i) w acts).countP fun e => e = .verdict .kill

/-- In every run the launches of a test are its passes, its failures, its kills
and the one that is still running; the counters are 64 bits wide. -/
theorem launches_accounted {pid : Nat} {tests : List CString}
    {acts : List Action} {w : World} (hrun : run (start pid tests) acts = some w)
    {i : Nat} (hi : i < tests.length) :
    exists m script, w.memory? 0 = some m ∧ m.scripts[i]? = some script ∧
      UInt64.ofNat (acts.countP (launchesTest i)) =
        script.passCount + script.failCount +
          UInt64.ofNat (killsOf i (start pid tests) acts) +
            if script.running = 1 then 1 else 0 := by
  rcases hasLife_run hi hrun with
    ⟨l, hl, v, script, hview, _, hscript, hholds⟩
  have hsettled := settled_run hl
  rcases launches_run hl with ⟨hlaunches, hkills⟩
  rw [shown_countP (fun s a _ _ => lifeEvents_launch i s a) hrun] at hlaunches
  have hrunning : (if script.running = 1 then (1 : UInt64) else 0) =
      UInt64.ofNat (if l.stage = .running then 1 else 0) := by
    rw [hholds.running]
    cases l.stage <;> rfl
  refine ⟨v.mem, script, hview.memory, hscript, ?_⟩
  unfold killsOf
  rw [← hlaunches, ← hkills, hholds.passCount, hholds.failCount, hrunning,
    ← UInt64.ofNat_add, ← UInt64.ofNat_add, ← UInt64.ofNat_add]
  exact congrArg UInt64.ofNat hsettled

theorem launches_accounted_failedOnce :
    exists w m script, run (start 1 ["hpl".toList]) failedOnceRun = some w ∧
      w.memory? 0 = some m ∧ m.scripts[0]? = some script ∧
      UInt64.ofNat (failedOnceRun.countP (launchesTest 0)) =
        script.passCount + script.failCount +
          UInt64.ofNat (killsOf 0 (start 1 ["hpl".toList]) failedOnceRun) +
            if script.running = 1 then 1 else 0 := by
  rcases @launches_accounted 1 ["hpl".toList] failedOnceRun _
    rfl 0 (by decide) with ⟨m, script, h⟩
  exact ⟨_, m, script, rfl, h⟩

end Scheduler
end Breakin
