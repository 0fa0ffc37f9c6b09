import Breakin.Scheduler.Processes
import Breakin.Scheduler.Slots

/-!
# Launching and disabling

The discipline of `run_burnin_tests` and of the poll pass over whole runs: one
child per script, one launch per idle slot and call, and no way back from -1.
-/

namespace Breakin
namespace Scheduler

open Foundation

def launchOf : Action -> Option Nat
  | .forkCmd _ _ (.burnin i) _ => some i
  | _ => none

def launchedIn (acts : List Action) : List Nat :=
  acts.filterMap launchOf

theorem launchedIn_snoc (acts : List Action) (a : Action) :
    launchedIn (acts ++ [a]) = launchedIn acts ++ (launchOf a).toList := by
  unfold launchedIn
  rw [List.filterMap_append]
  cases h : launchOf a <;> simp [h]

def slotOf : MoveLabel -> Option Nat
  | some (.burnin i, _, _) => some i
  | _ => none

def mainPC (m : Memory) : Option PC :=
  m.threads[0]?

theorem mainPC_set {m m' : Memory} {t : Nat} {pc pc' : PC}
    (hpc : m.threads[t]? = some pc)
    (hthreads : m'.threads = m.threads.set t pc') :
    (t = 0 ∧ mainPC m = some pc ∧ mainPC m' = some pc') ∨
      (t ≠ 0 ∧ mainPC m' = mainPC m) := by
  unfold mainPC
  rw [hthreads, List.getElem?_set]
  by_cases ht : t = 0
  · subst ht
    have hpos : 0 < m.threads.length := (List.getElem?_eq_some_iff.mp hpc).choose
    exact Or.inl ⟨rfl, hpc, by simp [hpos]⟩
  · exact Or.inr ⟨ht, by rw [if_neg ht]⟩

/-- What a step is to the main thread: nothing it can see, or one of its moves. -/
inductive MainStep (m : Memory) (a : Action) (m' : Memory) : Prop where
  | other :
      mainPC m' = mainPC m ->
      m'.scripts = m.scripts ->
      (¬ Foreign a -> launchOf a = none) ->
      a ≠ .wake 0 0 ->
      MainStep m a m'
  | move {label : MoveLabel} {pc pc' : PC} :
      mainPC m = some pc ->
      mainPC m' = some pc' ->
      Move m.scripts label pc m'.scripts pc' ->
      launchOf a = slotOf label ->
      (pc = .sleep -> a = .wake 0 0) ->
      MainStep m a m'

theorem mainStep_of_move {m m' : Memory} {a : Action} {t : Nat}
    {label : MoveLabel} {pc pc' : PC} (hthreads : RootThreads m)
    (hpc : m.threads[t]? = some pc)
    (hset : m'.threads = m.threads.set t pc')
    (hmove : Move m.scripts label pc m'.scripts pc')
    (hlaunch : launchOf a = slotOf label)
    (hwake : t = 0 -> pc = .sleep -> a = .wake 0 0)
    (hthread : a = .wake 0 0 -> t = 0) : MainStep m a m' := by
  rcases mainPC_set hpc hset with ⟨ht, hmain, hmain'⟩ | ⟨ht, hsame⟩
  · exact MainStep.move hmain hmain' hmove hlaunch (hwake ht)
  · have hdump := hthreads.dump t pc (Nat.pos_of_ne_zero ht) hpc
    refine MainStep.other hsame (hmove.dump hdump).right ?_
      fun ha => ht (hthread ha)
    intro _
    rw [hlaunch]
    generalize m'.scripts = scripts' at hmove
    cases hmove with
    | launched => cases hdump
    | _ => rfl

theorem slotOf_caller (caller : Caller) (pipe : Nat) (pid : Int) (t p : Nat)
    (out : ForkOutcome) :
    launchOf (.forkCmd p t caller out) = slotOf (some (caller, pipe, pid)) := by
  cases caller <;> rfl

theorem launchOf_quiet {a : Action} (hcalls : ¬ Calls a)
    (hforeign : ¬ Foreign a) : launchOf a = none := by
  cases a with
  | forkCmd p t caller out =>
      exact absurd (Classical.not_not.mp hforeign) hcalls
  | _ => rfl

theorem RootStep.mainStep {v v' : View} {a : Action} (h : RootStep v a v')
    (hthreads : RootThreads v.mem) : MainStep v.mem a v'.mem := by
  by_cases hcalls : Calls a
  · have hcall : forall {t : Nat} {label : MoveLabel} {pc pc' : PC},
        v.mem.threads[t]? = some pc ->
        v'.mem.threads = v.mem.threads.set t pc' ->
        Move v.mem.scripts label pc v'.mem.scripts pc' ->
        launchOf a = slotOf label -> pc ≠ .sleep ->
        MainStep v.mem a v'.mem := by
      intro t label pc pc' hpc hset hmove hlaunch hawake
      refine mainStep_of_move hthreads hpc hset hmove hlaunch
        (fun _ hsleep => absurd hsleep hawake) ?_
      intro heq
      rw [heq] at hcalls
      exact hcalls.elim
    have hcaller : forall {pc : PC} {caller : Caller},
        callerAt v.mem pc = some caller -> pc ≠ .sleep := by
      intro pc caller hcaller hsleep
      rw [hsleep] at hcaller
      cases hcaller
    have hwait : forall {pc : PC} {pid : Int},
        waitArg v.mem pc = some pid -> pc ≠ .sleep := by
      intro pc pid harg hsleep
      rw [hsleep] at harg
      cases harg
    cases h with
    | foreign extra hf => exact absurd hf hcalls.not_foreign
    | forkFailed hpc hfork hchild =>
        rename_i t pc caller out
        rcases forkReturned_move hfork t v.pipes.length (-1) out with
          ⟨pc', hset, hmove⟩
        exact hcall hpc hset hmove (slotOf_caller caller _ _ t 0 out)
          (hcaller hfork)
    | forked hpc hfork hchild hpos hfree =>
        rename_i t pid pc caller out
        rcases forkReturned_move hfork t v.pipes.length pid out with
          ⟨pc', hset, hmove⟩
        exact hcall hpc hset hmove (slotOf_caller caller _ _ t 0 out)
          (hcaller hfork)
    | waitError hpc harg hnone hwaited =>
        rcases waited_move hwaited with ⟨pc', hset, hmove⟩
        exact hcall hpc hset hmove rfl (hwait harg)
    | waitNochange hpc harg hsome hnone hwaited =>
        rcases waited_move hwaited with ⟨pc', hset, hmove⟩
        exact hcall hpc hset hmove rfl (hwait harg)
    | waitReaped hpc harg hchild hselect hlife hwaited =>
        rcases waited_move hwaited with ⟨pc', hset, hmove⟩
        exact hcall hpc hset hmove rfl (hwait harg)
    | _ => exact hcalls.elim
  · cases h.quiet hcalls with
    | idle hmem hdump hwake =>
        exact MainStep.other (by rw [hmem]) (by rw [hmem])
          (launchOf_quiet hcalls) (hwake 0)
    | dumpLog ha hscripts hset hfds =>
        rcases hthreads.main with ⟨pc0, hpc0, _⟩
        have hpos : 0 < v.mem.threads.length :=
          (List.getElem?_eq_some_iff.mp hpc0).choose
        refine MainStep.other ?_ hscripts (launchOf_quiet hcalls) ?_
        · unfold mainPC
          rw [hset, List.getElem?_append_left hpos]
        · rw [ha]
          simp
    | move hforeign hpc hset hmove hfds hreap hsleep hthread =>
        refine mainStep_of_move hthreads hpc hset hmove
          (launchOf_quiet hcalls hforeign) ?_ ?_
        · intro ht hpcSleep
          rw [hsleep hpcSleep, ht]
        · intro heq
          exact (hthread 0 heq).symm

/-!
# Runs in which every execve succeeds
-/

def ExecRun (w : World) (acts : List Action) (w' : World) : Prop :=
  run w acts = some w' ∧ forall a, a ∈ acts -> ¬ ExecveFails a

def Reachable (w : World) : Prop :=
  exists pid tests acts, ExecRun (start pid tests) acts w

def AllChildren (v : View) : Prop :=
  forall q, v.children[q]? = some none -> q = 0

/-- The state of a run in which every `execve` succeeds. -/
structure Good (w : World) (v : View) : Prop where
  view : ViewOf w v
  control : Control v.mem
  owned : Owned v
  alone : OneScheduler w
  children : AllChildren v

theorem RootStep.allChildren {v v' : View} {a : Action} (h : RootStep v a v')
    (hforeign : ¬ Foreign a) (hall : AllChildren v) : AllChildren v' := by
  have hset : forall {p : Nat} {life : Life} {q : Nat},
      (v.children.modify p (Option.map (Child.setLife life)))[q]? =
        some none -> q = 0 := by
    intro p life q hcell
    rw [List.getElem?_modify] at hcell
    rcases Option.map_eq_some_iff.mp hcell with ⟨cell, hq, hnone⟩
    apply hall q
    rw [hq]
    split at hnone
    · cases cell with
      | none => rfl
      | some c => cases hnone
    · rw [hnone]
  cases h with
  | foreign extra hf => exact absurd hf hforeign
  | exit halive =>
      intro q hcell
      exact hset hcell
  | waitReaped hpc harg hchild hselect hlife hwaited =>
      intro q hcell
      exact hset hcell
  | forked hpc hcaller hchild hpos hfree =>
      intro q hcell
      rw [List.getElem?_append] at hcell
      split at hcell
      · exact hall q hcell
      · rw [List.getElem?_singleton] at hcell
        split at hcell <;> cases hcell
  | _ => exact hall

theorem Good.step {w w' : World} {v : View} {a : Action} (h : Good w v)
    (ha : ¬ ExecveFails a) (hstep : Scheduler.step w a = some w') :
    exists v', Good w' v' ∧ RootStep v a v' ∧ ¬ Foreign a := by
  rcases h.alone.step h.view h.control ha hstep with ⟨hone, hforeign⟩
  rcases rootStep_of_step h.view h.control.threads hstep with
    ⟨v', hview', hroot⟩
  exact ⟨v', ⟨hview', hroot.control h.control,
    hroot.keeps_owned h.control h.owned, hone,
    hroot.allChildren hforeign h.children⟩, hroot, hforeign⟩

theorem good_start (pid : Nat) (tests : List CString) :
    Good (start pid tests) (startView tests) where
  view := viewOf_start pid tests
  control := control_start tests
  owned := owned_start tests
  alone := oneScheduler_start pid tests
  children := by
    intro q hcell
    cases q with
    | zero => rfl
    | succ q => cases hcell

/-- The run rule for runs in which every `execve` succeeds: `R` speaks about the
actions so far and the view they lead to. -/
theorem good_history {w : World} {v : View} (hgood : Good w v)
    {R : List Action -> View -> Prop} (hstart : R [] v)
    (hkeep : forall acts a u v1 v2, Good u v1 -> R acts v1 ->
      RootStep v1 a v2 -> ¬ Foreign a -> ¬ ExecveFails a -> R (acts ++ [a]) v2)
    {acts : List Action} {w' : World} (hrun : ExecRun w acts w') :
    exists v', Good w' v' ∧ R acts v' := by
  rcases hrun with ⟨hrun, hexec⟩
  revert hexec
  refine runFrom_history (R := fun acts w' =>
    (forall a, a ∈ acts -> ¬ ExecveFails a) ->
      exists v', Good w' v' ∧ R acts v') ?_ ?_ hrun
  · intro _
    exact ⟨v, hgood, hstart⟩
  · intro acts a t u _hrun ih hstep hexec
    rcases ih (fun b hb => hexec b (List.mem_append_left _ hb)) with
      ⟨v1, hgood1, hR⟩
    have ha : ¬ ExecveFails a := hexec a (by simp)
    rcases hgood1.step ha hstep with ⟨v2, hgood2, hroot, hforeign⟩
    exact ⟨v2, hgood2, hkeep acts a t v1 v2 hgood1 hR hroot hforeign ha⟩

theorem good_along {P : View -> Prop} {C : World -> Action -> Prop} {pid : Nat}
    {tests : List CString} {acts : List Action} {w : World}
    (hstart : P (startView tests))
    (hkeep : forall u v a v', Good u v -> P v -> C u a -> RootStep v a v' ->
      ¬ Foreign a -> P v')
    (hrun : ExecRun (start pid tests) acts w)
    (hmeet : StepsMeet step (start pid tests) acts C) :
    Along step (start pid tests) acts fun u => exists v, Good u v ∧ P v := by
  refine along_invariant (C := fun u a => C u a ∧ ¬ ExecveFails a) ?_
    ⟨_, good_start pid tests, hstart⟩ ?_
  · intro u a t hu ha hstep
    rcases hu with ⟨v, hgood, hP⟩
    rcases hgood.step ha.right hstep with ⟨v', hgood', hroot, hforeign⟩
    exact ⟨v', hgood', hkeep u v a v' hgood hP ha.left hroot hforeign⟩
  · intro pre a post t hacts hpre
    exact ⟨hmeet pre a post t hacts hpre, hrun.right a (by simp [hacts])⟩

theorem Reachable.good {w : World} (h : Reachable w) : exists v, Good w v := by
  rcases h with ⟨pid, tests, acts, hrun⟩
  rcases good_history (R := fun _ _ => True) (good_start pid tests) trivial
    (fun _ _ _ _ _ _ _ _ _ _ => trivial) hrun with ⟨v, hgood, _⟩
  exact ⟨v, hgood⟩

end Scheduler
end Breakin
