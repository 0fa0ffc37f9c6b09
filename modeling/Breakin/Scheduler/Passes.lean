import Breakin.Foundation.Refinement
import Breakin.Foundation.FileTail
import Breakin.Scheduler.Descriptors

/-!
# The passes of the scheduler

`main` goes round: it launches what is idle, visits the scripts one after the
other, and sleeps.  No script is visited twice before the others had their turn,
the loop is never stuck, and a pass ends when the tests are silent for as long as
it takes.
-/

namespace Breakin
namespace Scheduler

open Foundation

/-- The thread that takes a step of the code of breakin, behind its `execve`. -/
def actor : Action -> Option (Nat × Nat)
  | .forkCmd p t _ _ => some (p, t)
  | .visit p t => some (p, t)
  | .fgets p t => some (p, t)
  | .waitpid p t _ => some (p, t)
  | .wake p t => some (p, t)
  | _ => none

/-- A step of the thread that runs `main` in the first process. -/
def byMain (a : Action) : Bool :=
  decide (actor a = some (0, 0))

theorem Foreign.not_byMain {a : Action} (h : Foreign a) : byMain a = false := by
  unfold byMain
  rw [decide_eq_false_iff_not]
  intro hactor
  cases a with
  | execve p ok => cases hactor
  | forkTail p out => cases hactor
  | dumpLog => cases hactor
  | write p bytes => cases hactor
  | exit p status => cases hactor
  | _ => exact h (congrArg Prod.fst (Option.some.inj hactor))

/-- What a step is to the main thread: none of its own, or one of its moves. -/
inductive MainTurn (m : Memory) (a : Action) (m' : Memory) : Prop where
  | other :
      byMain a = false ->
      mainPC m' = mainPC m ->
      m'.scripts = m.scripts ->
      MainTurn m a m'
  | own {label : MoveLabel} {pc pc' : PC} :
      byMain a = true ->
      mainPC m = some pc ->
      mainPC m' = some pc' ->
      Move m.scripts label pc m'.scripts pc' ->
      MainTurn m a m'

theorem mainTurn_of_move {m m' : Memory} {a : Action} {t : Nat}
    {label : MoveLabel} {pc pc' : PC} (hroot : RootThreads m)
    (hactor : actor a = some (0, t)) (hpc : m.threads[t]? = some pc)
    (hthreads : m'.threads = m.threads.set t pc')
    (hmove : Move m.scripts label pc m'.scripts pc') : MainTurn m a m' := by
  rcases mainPC_set hpc hthreads with ⟨ht, hmain, hmain'⟩ | ⟨ht, hsame⟩
  · rw [ht] at hactor
    exact MainTurn.own (decide_eq_true hactor) hmain hmain' hmove
  · have hdump := hroot.dump t pc (Nat.pos_of_ne_zero ht) hpc
    refine MainTurn.other ?_ hsame (hmove.dump hdump).right
    unfold byMain
    rw [hactor, decide_eq_false_iff_not]
    intro heq
    exact ht (congrArg Prod.snd (Option.some.inj heq))

theorem RootStep.mainTurn {v v' : View} {a : Action} (h : RootStep v a v')
    (hroot : RootThreads v.mem) : MainTurn v.mem a v'.mem := by
  cases h with
  | foreign extra hf hnone hlen => exact MainTurn.other hf.not_byMain rfl rfl
  | execve hp => exact MainTurn.other rfl rfl rfl
  | write out hout => exact MainTurn.other rfl rfl rfl
  | exit halive => exact MainTurn.other rfl rfl rfl
  | dumpLog =>
      rcases hroot.main with ⟨pc, hpc, _⟩
      refine MainTurn.other rfl ?_ rfl
      exact List.getElem?_append_left (List.getElem?_eq_some_iff.mp hpc).choose
  | forkFailed hpc hcaller hchild =>
      rcases forkReturned_move hcaller _ _ _ _ with ⟨pc', hthreads, hmove⟩
      exact mainTurn_of_move hroot rfl hpc hthreads hmove
  | forked hpc hcaller hchild hpos hfree =>
      rcases forkReturned_move hcaller _ _ _ _ with ⟨pc', hthreads, hmove⟩
      exact mainTurn_of_move hroot rfl hpc hthreads hmove
  | launch hpc hvisit =>
      rcases launchVisit_move hvisit with ⟨pc', hthreads, hmove⟩
      exact mainTurn_of_move hroot rfl hpc hthreads hmove
  | poll hpc =>
      rcases pollVisit_move v.mem _ _ with ⟨pc', hthreads, hmove⟩
      exact mainTurn_of_move hroot rfl hpc hthreads hmove
  | drained hpc hfp hpipe hempty hdrained =>
      rcases drained_move hpc hdrained with ⟨pc', hthreads, hmove⟩
      exact mainTurn_of_move hroot rfl hpc hthreads hmove
  | line hpc hfp hpipe hline hdrained =>
      rcases drained_move hpc hdrained with ⟨pc', hthreads, hmove⟩
      exact mainTurn_of_move hroot rfl hpc hthreads hmove
  | waitError hpc harg hnone hwaited =>
      rcases waited_move hwaited with ⟨pc', hthreads, hmove⟩
      exact mainTurn_of_move hroot rfl hpc hthreads hmove
  | waitNochange hpc harg hsome hnone hwaited =>
      rcases waited_move hwaited with ⟨pc', hthreads, hmove⟩
      exact mainTurn_of_move hroot rfl hpc hthreads hmove
  | waitReaped hpc harg hc hselect hlife hwaited =>
      rcases waited_move hwaited with ⟨pc', hthreads, hmove⟩
      exact mainTurn_of_move hroot rfl hpc hthreads hmove
  | wake hpc => exact mainTurn_of_move hroot rfl hpc rfl Move.woken

theorem Move.length {scripts scripts' : List BurninScript} {label : MoveLabel}
    {pc pc' : PC} (h : Move scripts label pc scripts' pc') :
    scripts'.length = scripts.length := by
  cases h with
  | launched => exact List.length_modify _ _ _
  | delivered => exact List.length_modify _ _ _
  | classified => exact List.length_modify _ _ _
  | _ => rfl

/-!
# One after the other
-/

def visitAt (n : Nat) : PC -> List Nat
  | .poll i => if i < n then [i] else []
  | _ => []

/-- The slots that the poll pass of `main` visits. -/
def visitEvents (w : World) : Action -> List Nat
  | .visit p t =>
      match w.at? p t with
      | some (m, pc) => if p = 0 then visitAt m.scripts.length pc else []
      | none => []
  | _ => []

/-- The abstract system: the visits go round over `n` slots. -/
def roundStep (n : Nat) (k : Nat) (i : Nat) : Option Nat :=
  if i = k % n then some (k + 1) else none

theorem round_run {n k : Nat} {visits : List Nat}
    (h : runFrom (roundStep n) 0 visits = some k) :
    visits = (List.range k).map fun j => j % n := by
  refine runFrom_history (R := fun visits k =>
    visits = (List.range k).map fun j => j % n) rfl ?_ h
  intro visits i j k _ ih hstep
  unfold roundStep at hstep
  split at hstep
  · rename_i hi
    cases hstep
    rw [List.range_succ, List.map_append, ← ih, hi]
    rfl
  · cases hstep

/-- Where the main thread is after `k` visits in all. -/
def AfterVisits (n : Nat) : PC -> Nat -> Prop
  | .poll i, k => i ≤ n ∧ k % n = i % n
  | .drain i, k => i < n ∧ k % n = (i + 1) % n
  | .reap i, k => i < n ∧ k % n = (i + 1) % n
  | _, k => k % n = 0

theorem AfterVisits.next {n i k : Nat} (hi : i < n) (h : k % n = i % n) :
    i = k % n ∧ (k + 1) % n = (i + 1) % n := by
  constructor
  · rw [h, Nat.mod_eq_of_lt hi]
  · rw [Nat.add_mod, h, ← Nat.add_mod]

theorem Move.afterVisits {scripts scripts' : List BurninScript}
    {label : MoveLabel} {pc pc' : PC} (h : Move scripts label pc scripts' pc')
    {k : Nat} (hk : AfterVisits scripts.length pc k) :
    exists k', runFrom (roundStep scripts.length) k
        (visitAt scripts.length pc) = some k' ∧
      AfterVisits scripts.length pc' k' := by
  have hvisit : forall {i : Nat} {script : BurninScript},
      scripts[i]? = some script -> k % scripts.length = i % scripts.length ->
        i < scripts.length ∧
        runFrom (roundStep scripts.length) k (visitAt scripts.length (.poll i)) =
          some (k + 1) ∧ (k + 1) % scripts.length = (i + 1) % scripts.length := by
    intro i script hscript hmod
    have hi : i < scripts.length := (List.getElem?_eq_some_iff.mp hscript).choose
    rcases AfterVisits.next hi hmod with ⟨heq, hnext⟩
    refine ⟨hi, ?_, hnext⟩
    simp [visitAt, hi, runFrom, roundStep, ← heq]
  cases h with
  | polling hnone => exact ⟨k, rfl, Nat.zero_le _, hk.trans (Nat.zero_mod _).symm⟩
  | asleep hnone =>
      rename_i i
      have hi : scripts.length ≤ i := List.getElem?_eq_none_iff.mp hnone
      have heq : i = scripts.length := Nat.le_antisymm hk.left hi
      refine ⟨k, by simp [visitAt, heq], ?_⟩
      exact hk.right.trans (by rw [heq, Nat.mod_self])
  | passed hscript hstill =>
      rcases hvisit hscript hk.right with ⟨hi, hrun, hnext⟩
      exact ⟨k + 1, hrun, hi, hnext⟩
  | draining hscript hrunning hfp =>
      rcases hvisit hscript hk.right with ⟨hi, hrun, hnext⟩
      exact ⟨k + 1, hrun, hi, hnext⟩
  | delivered data hscript => exact ⟨k, rfl, hk⟩
  | dry => exact ⟨k, rfl, hk⟩
  | classified res hscript => exact ⟨k, rfl, hk.left, hk.right⟩
  | unfollowed hplace =>
      rcases hplace with heq | ⟨_, heq⟩
      · rw [heq]
        exact ⟨k, rfl, hk⟩
      · rw [heq]
        exact ⟨k, rfl, hk⟩
  | _ => exact ⟨k, rfl, hk⟩

theorem visitAt_caller {m : Memory} {pc : PC} {caller : Caller}
    (h : callerAt m pc = some caller) (n : Nat) : visitAt n pc = [] := by
  rcases callerAt_some h with ⟨i, script, heq, _⟩ | ⟨x, heq, _⟩
  · rw [heq]
    rfl
  · rw [heq]
    rfl

theorem visitAt_drain {m : Memory} {pc : PC} {fp : Nat}
    (h : drainArg m pc = some fp) (n : Nat) : visitAt n pc = [] := by
  cases pc with
  | poll i => cases h
  | _ => rfl

theorem visitAt_wait {m : Memory} {pc : PC} {pid : Int}
    (h : waitArg m pc = some pid) (n : Nat) : visitAt n pc = [] := by
  cases pc with
  | poll i => cases h
  | _ => rfl

theorem RootStep.visitEvents {w : World} {v v' : View} {a : Action}
    (h : RootStep v a v') (hview : ViewOf w v) (hroot : RootThreads v.mem)
    {pc : PC} (hpc : mainPC v.mem = some pc) :
    Scheduler.visitEvents w a =
      if byMain a then visitAt v.mem.scripts.length pc else [] := by
  have hat : forall {t : Nat} {pc : PC}, v.mem.threads[t]? = some pc ->
      w.at? 0 t = some (v.mem, pc) := fun hthread =>
    at?_some_iff.mpr ⟨hview.memory, hthread⟩
  -- a step other than a visit is not taken in front of a slot
  have hplace : forall {t : Nat} {pc0 : PC}, actor a = some (0, t) ->
      v.mem.threads[t]? = some pc0 -> visitAt v.mem.scripts.length pc0 = [] ->
      (if byMain a then visitAt v.mem.scripts.length pc else []) = [] := by
    intro t pc0 hactor hthread hnone
    by_cases hmain : byMain a = true
    · rw [if_pos hmain]
      have ht : t = 0 := by
        have heq := of_decide_eq_true hmain
        rw [hactor] at heq
        exact congrArg Prod.snd (Option.some.inj heq)
      rw [ht] at hthread
      rw [Option.some.inj (hpc.symm.trans hthread)]
      exact hnone
    · rw [if_neg hmain]
  cases h with
  | foreign extra hf hnone hlen =>
      rw [hf.not_byMain]
      cases a with
      | visit p t =>
          unfold Scheduler.visitEvents
          simp only
          cases w.at? p t with
          | none => rfl
          | some place => exact if_neg hf
      | _ => rfl
  | execve hp => rfl
  | write out hout => rfl
  | exit halive => rfl
  | dumpLog => rfl
  | launch hthread hvisit =>
      rename_i t i m
      rw [hplace rfl hthread rfl]
      unfold Scheduler.visitEvents
      simp only [hat hthread, if_true]
      rfl
  | poll hthread =>
      rename_i t i
      have ht : t = 0 := hroot.main_of_not_dump hthread id
      subst ht
      rw [Option.some.inj (hpc.symm.trans hthread)]
      unfold Scheduler.visitEvents
      simp only [hat hthread, if_true]
      rfl
  | forkFailed hthread hcaller hchild =>
      exact (hplace rfl hthread (visitAt_caller hcaller _)).symm
  | forked hthread hcaller hchild hpos hfree =>
      exact (hplace rfl hthread (visitAt_caller hcaller _)).symm
  | drained hthread hfp hpipe hempty hdrained =>
      exact (hplace rfl hthread (visitAt_drain hfp _)).symm
  | line hthread hfp hpipe hline hdrained =>
      exact (hplace rfl hthread (visitAt_drain hfp _)).symm
  | waitError hthread harg hnone hwaited =>
      exact (hplace rfl hthread (visitAt_wait harg _)).symm
  | waitNochange hthread harg hsome hnone hwaited =>
      exact (hplace rfl hthread (visitAt_wait harg _)).symm
  | waitReaped hthread harg hc hselect hlife hwaited =>
      exact (hplace rfl hthread (visitAt_wait harg _)).symm
  | wake hthread => exact (hplace rfl hthread rfl).symm

/-- The main thread of the first process has made `k` visits over `n` slots. -/
def Visited (n : Nat) (w : World) (k : Nat) : Prop :=
  exists v pc, ViewOf w v ∧ Control v.mem ∧ v.mem.scripts.length = n ∧
    mainPC v.mem = some pc ∧ AfterVisits n pc k

theorem visited_start (pid : Nat) (tests : List CString) :
    Visited tests.length (start pid tests) 0 :=
  ⟨startView tests, .helper .hardware .fork, viewOf_start pid tests,
    control_start tests, List.length_map _, rfl, Nat.zero_mod _⟩

theorem Visited.step {n k : Nat} {w w' : World} {a : Action}
    (h : Visited n w k) (hstep : step w a = some w') :
    exists k', runFrom (roundStep n) k (visitEvents w a) = some k' ∧
      Visited n w' k' := by
  rcases h with ⟨v, pc, hview, hcontrol, hlen, hpc, hk⟩
  rcases rootStep_of_step hview hcontrol.threads hstep with
    ⟨v', hview', hroot⟩
  rw [hroot.visitEvents hview hcontrol.threads hpc]
  have hcontrol' := hroot.control hcontrol
  cases hroot.mainTurn hcontrol.threads with
  | other hmain hsame hscripts =>
      rw [if_neg (by simp [hmain])]
      exact ⟨k, rfl, v', pc, hview', hcontrol', by rw [hscripts, hlen],
        hsame.trans hpc, hk⟩
  | own hmain hpc0 hpc' hmove =>
      rw [if_pos hmain]
      rw [Option.some.inj (hpc.symm.trans hpc0)] at hk ⊢
      rw [← hlen] at hk ⊢
      rcases hmove.afterVisits hk with ⟨k', hrun, hk'⟩
      exact ⟨k', hrun, v', _, hview', hcontrol', hmove.length, hpc', hk'⟩

/-- In every run the visits of the poll passes go round: the `j`-th of them is at
slot `j` modulo the number of scripts. -/
theorem visits_go_round {pid : Nat} {tests : List CString} {acts : List Action}
    {w : World} (hrun : run (start pid tests) acts = some w) :
    exists k, shown step visitEvents (start pid tests) acts =
      (List.range k).map fun j => j % tests.length := by
  rcases refines_run (fun _ _ _ _ h hstep => h.step hstep)
    (visited_start pid tests) hrun with ⟨k, hround, _⟩
  exact ⟨k, round_run hround⟩

def twoPassRun : List Action :=
  hardwareSetup ++
    [launchOk 0 3, .execve 2 true, launchOk 1 4, .execve 3 true, .visit 0 0,
      .visit 0 0, .fgets 0 0, .waitpid 0 0 .nochange,
      .visit 0 0, .fgets 0 0, .waitpid 0 0 .nochange,
      .visit 0 0, .wake 0 0, .visit 0 0, .visit 0 0, .visit 0 0,
      .visit 0 0, .fgets 0 0, .waitpid 0 0 .nochange,
      .visit 0 0, .fgets 0 0, .waitpid 0 0 .nochange]

theorem visits_go_round_twoPasses :
    exists w, run (start 1 ["ecc".toList, "hpl".toList]) twoPassRun = some w ∧
      shown step visitEvents (start 1 ["ecc".toList, "hpl".toList]) twoPassRun =
        [0, 1, 0, 1] ∧
      exists k, shown step visitEvents (start 1 ["ecc".toList, "hpl".toList])
          twoPassRun =
        (List.range k).map fun j => j % ["ecc".toList, "hpl".toList].length :=
  ⟨_, rfl, by decide, visits_go_round rfl⟩

/-!
# The loop is never stuck
-/

/-- Whatever children there are, `waitpid` has a result. -/
theorem exists_waitResult (w : World) (p : Nat) (pid : Int) :
    exists res, waitpidAllows w p pid res = true := by
  by_cases hzombie : exists (j : Nat) (pr : Process), w.procs[j]? = some pr ∧
      Selects p pid pr ∧ pr.life.zombie?.isSome = true
  · rcases hzombie with ⟨j, pr, hproc, hselect, hsome⟩
    refine ⟨.reaped j, ?_⟩
    simp [waitpidAllows, hproc, hselect, hsome]
  · have hnone : forall pr, pr ∈ w.procs -> Selects p pid pr ->
        pr.life.zombie?.isNone = true := by
      intro pr hpr hselect
      rcases List.getElem?_of_mem hpr with ⟨j, hproc⟩
      cases hlife : pr.life.zombie? with
      | none => rfl
      | some st =>
          exact absurd ⟨j, pr, hproc, hselect, by rw [hlife]; rfl⟩ hzombie
    by_cases hany : exists pr, pr ∈ w.procs ∧ Selects p pid pr
    · rcases hany with ⟨pr, hpr, hselect⟩
      refine ⟨.nochange, ?_⟩
      simp only [waitpidAllows, Bool.and_eq_true, List.any_eq_true,
        List.all_eq_true, decide_eq_true_eq, Bool.or_eq_true,
        Bool.not_eq_true', decide_eq_false_iff_not]
      exact ⟨⟨pr, hpr, hselect⟩, fun pr hpr => Classical.or_iff_not_imp_left.mpr
        fun hnot => hnone pr hpr (Classical.not_not.mp hnot)⟩
    · refine ⟨.error, ?_⟩
      simp only [waitpidAllows, List.all_eq_true, Bool.not_eq_true',
        decide_eq_false_iff_not]
      exact fun pr hpr hselect => hany ⟨pr, hpr, hselect⟩

/-- The hardware loop of `main` never ends but in the burn-in tests. -/
def NeverDone (m : Memory) : Prop :=
  mainPC m ≠ some (.helper .hardware .done)

theorem neverDone_set {m m' : Memory} {t : Nat} {pc pc' : PC}
    (h : NeverDone m) (hpc : m.threads[t]? = some pc)
    (hthreads : m'.threads = m.threads.set t pc')
    (hnot : t = 0 -> pc' ≠ .helper .hardware .done) : NeverDone m' := by
  intro hdone
  rcases mainPC_set hpc hthreads with ⟨ht, _, hmain'⟩ | ⟨_, hsame⟩
  · rw [hmain'] at hdone
    exact hnot ht (Option.some.inj hdone)
  · exact h (hsame.symm.trans hdone)

def afterHelper : Helper -> PC
  | .hardware => .launch 0
  | .dumpLog d => .helper (.dumpLog d) .done

@[simp] theorem helperDone_threads (m : Memory) (t : Nat) (x : Helper) :
    (helperDone m t x).threads = m.threads.set t (afterHelper x) := by
  cases x <;> rfl

theorem afterHelper_ne (x : Helper) : afterHelper x ≠ .helper .hardware .done := by
  cases x <;> exact fun heq => by cases heq

theorem neverDone_fork {v : View} {m' : Memory} {t : Nat} {pc : PC}
    {caller : Caller} (pid : Int) (out : ForkOutcome) (h : NeverDone v.mem)
    (hpc : v.mem.threads[t]? = some pc)
    (hcaller : callerAt v.mem pc = some caller)
    (hm : m' = forkReturned (openPipe v.mem v.pipes.length caller) t
      v.pipes.length pid caller out) : NeverDone m' := by
  rcases callerAt_some hcaller with
    ⟨i, script, _, hburnin, _, _⟩ | ⟨x, _, hhelper⟩
  · subst hburnin
    have hthreads : m'.threads = v.mem.threads.set t (.launch (i + 1)) := by
      rw [hm, forkReturned_burnin_threads, openPipe_threads]
    exact neverDone_set h hpc hthreads fun _ heq => PC.noConfusion heq
  · subst hhelper
    rcases forkReturned_helper (openPipe v.mem v.pipes.length (.helper x)) t
      v.pipes.length pid x out with hfollow | hdone
    · have hthreads : m'.threads = v.mem.threads.set t
          (.helper x (.drain pid v.pipes.length)) := by
        rw [hm, hfollow, goto_threads, forkTail_threads, openPipe_threads]
      exact neverDone_set h hpc hthreads fun _ heq => by cases heq
    · have hthreads : m'.threads = v.mem.threads.set t (afterHelper x) := by
        rw [hm, hdone, helperDone_threads, forkTail_threads, openPipe_threads]
      exact neverDone_set h hpc hthreads fun _ => afterHelper_ne x

theorem neverDone_wait {m m' : Memory} {t : Nat} {pc : PC} {res : WaitOutcome}
    (h : NeverDone m) (hpc : m.threads[t]? = some pc)
    (hwaited : waited m t res pc = some m') : NeverDone m' := by
  unfold waited at hwaited
  split at hwaited
  · rename_i i
    split at hwaited
    · split at hwaited
      · cases hwaited
        exact neverDone_set h hpc (pollWaited_threads _ _ _ _ _ _)
          fun _ heq => PC.noConfusion heq
      · cases hwaited
    · cases hwaited
  · rename_i x pid fp
    cases hwaited
    unfold helperWaited
    split
    · refine neverDone_set h hpc rfl fun _ heq => ?_
      cases heq
    · exact neverDone_set h hpc (helperDone_threads _ t x)
        fun _ => afterHelper_ne x
  · cases hwaited

theorem neverDone_drained {m m' : Memory} {t : Nat} {pc : PC}
    {line : Option (List Char)} (h : NeverDone m)
    (hpc : m.threads[t]? = some pc) (hd : drained m t line pc = some m') :
    NeverDone m' := by
  unfold drained at hd
  split at hd
  · split at hd
    · cases hd
    · cases hd
      exact neverDone_set h hpc rfl fun _ heq => PC.noConfusion heq
    · cases hd
      exact h
  · split at hd
    · cases hd
      refine neverDone_set h hpc rfl fun _ heq => ?_
      cases heq
    · cases hd
      exact h
  · cases hd

theorem neverDone_visit {m m' : Memory} {t i : Nat} {pc : PC} (h : NeverDone m)
    (hpc : m.threads[t]? = some pc)
    (hvisit : launchVisit m t i = some m' ∨ m' = pollVisit m t i) :
    NeverDone m' := by
  rcases hvisit with hlaunch | hpoll
  · unfold launchVisit at hlaunch
    split at hlaunch
    · cases hlaunch
      exact neverDone_set h hpc rfl fun _ heq => PC.noConfusion heq
    · split at hlaunch
      · cases hlaunch
      · cases hlaunch
        exact neverDone_set h hpc rfl fun _ heq => PC.noConfusion heq
  · rw [hpoll]
    unfold pollVisit
    split
    · exact neverDone_set h hpc rfl fun _ heq => PC.noConfusion heq
    · split
      · split <;>
          exact neverDone_set h hpc rfl fun _ heq => PC.noConfusion heq
      · exact neverDone_set h hpc rfl fun _ heq => PC.noConfusion heq

theorem RootStep.neverDone {v v' : View} {a : Action} (h : RootStep v a v')
    (hroot : RootThreads v.mem) (hnever : NeverDone v.mem) :
    NeverDone v'.mem := by
  cases h with
  | foreign extra hf hnone hlen => exact hnever
  | execve hp => exact hnever
  | write out hout => exact hnever
  | exit halive => exact hnever
  | dumpLog =>
      rcases hroot.main with ⟨pc, hpc, _⟩
      unfold NeverDone mainPC
      rw [List.getElem?_append_left (List.getElem?_eq_some_iff.mp hpc).choose]
      exact hnever
  | forkFailed hpc hcaller hchild => exact neverDone_fork (-1) _ hnever hpc hcaller rfl
  | forked hpc hcaller hchild hpos hfree =>
      exact neverDone_fork _ _ hnever hpc hcaller rfl
  | launch hpc hvisit => exact neverDone_visit hnever hpc (Or.inl hvisit)
  | poll hpc => exact neverDone_visit hnever hpc (Or.inr rfl)
  | drained hpc hfp hpipe hempty hd => exact neverDone_drained hnever hpc hd
  | line hpc hfp hpipe hline hd => exact neverDone_drained hnever hpc hd
  | waitError hpc harg hnone hwaited => exact neverDone_wait hnever hpc hwaited
  | waitNochange hpc harg hsome hnone hwaited =>
      exact neverDone_wait hnever hpc hwaited
  | waitReaped hpc harg hc hselect hlife hwaited =>
      exact neverDone_wait hnever hpc hwaited
  | wake hpc => exact neverDone_set hnever hpc rfl fun _ heq => PC.noConfusion heq

theorem passes_books {pid : Nat} {tests : List CString} {acts : List Action}
    {w : World} (hrun : run (start pid tests) acts = some w) :
    exists opened v, ViewOf w v ∧ Control v.mem ∧ Books opened v ∧
      NeverDone v.mem := by
  rcases books_run hrun with ⟨v, hview, hcontrol, hbooks, _, _⟩
  refine ⟨_, v, hview, hcontrol, hbooks, ?_⟩
  have hstart : NeverDone (startView tests).mem := fun heq => by cases heq
  have hnever := view_run (P := fun v => NeverDone v.mem)
    (C := fun _ _ => True) hstart
    (fun _ _ _ _ _ hcontrol hnever _ hroot =>
      hroot.neverDone hcontrol.threads hnever)
    (fun _ _ _ _ _ _ => trivial) hrun
  rcases hnever with ⟨v', hview', _, hv'⟩
  rcases hview.memory.symm.trans hview'.memory with heq
  rw [Option.some.inj heq]
  exact hv'

theorem enabled_visit {w : World} {m : Memory} {i : Nat}
    (hat : w.at? 0 0 = some (m, .launch i))
    (hnone : callerAt m (.launch i) = none) :
    exists w', step w (.visit 0 0) = some w' := by
  cases hscript : m.scripts[i]? with
  | none =>
      refine ⟨w.setMemory 0 (m.goto 0 (.poll 0)), ?_⟩
      simp [step, stepVisit, hat, launchVisit, hscript]
  | some script =>
      have hrunning : script.running ≠ 0 := by
        intro hzero
        simp [callerAt, hscript, hzero] at hnone
      refine ⟨w.setMemory 0 (m.goto 0 (.launch (i + 1))), ?_⟩
      simp [step, stepVisit, hat, launchVisit, hscript, hrunning]

theorem enabled_fork {w : World} {m : Memory} {pc : PC} {caller : Caller}
    (hat : w.at? 0 0 = some (m, pc)) (hcaller : callerAt m pc = some caller) :
    exists w', step w (.forkCmd 0 0 caller
      { child := none, fcntl := true, fdopen := true }) = some w' := by
  simp [step, stepFork, hat, hcaller, forkCmd]

theorem enabled_fgets {w : World} {m : Memory} {pc : PC} {fp : Nat}
    (hat : w.at? 0 0 = some (m, pc)) (hfp : drainArg m pc = some fp)
    (hlt : fp < w.pipes.length) :
    exists w', step w (.fgets 0 0) = some w' := by
  have hdrained : forall line, exists m', drained m 0 line pc = some m' := by
    intro line
    cases pc with
    | drain i =>
        cases hscript : m.scripts[i]? with
        | none => simp [drainArg, hscript] at hfp
        | some script => cases line <;> simp [drained, hscript]
    | helper x g =>
        cases g with
        | drain pid k => cases line <;> simp [drained]
        | _ => cases hfp
    | _ => cases hfp
  show exists w', stepFgets w 0 0 = some w'
  simp only [stepFgets, hat, hfp, List.getElem?_eq_getElem hlt]
  cases hline : Pipe.fgets BUFSIZ w.pipes[fp] with
  | none =>
      rcases hdrained none with ⟨m', hm'⟩
      exact ⟨_, by rw [hm']; rfl⟩
  | some place =>
      rcases hdrained (some place.1) with ⟨m', hm'⟩
      refine ⟨{ w.setMemory 0 m' with pipes := w.pipes.set fp place.2 }, ?_⟩
      show Option.map _ (drained m 0 (some place.1) pc) = _
      rw [hm']
      rfl

theorem enabled_wait {w : World} {m : Memory} {pc : PC} {pid : Int}
    (hat : w.at? 0 0 = some (m, pc)) (harg : waitArg m pc = some pid)
    (hwaited : forall res, exists m', waited m 0 res pc = some m') :
    exists res w', step w (.waitpid 0 0 res) = some w' := by
  rcases exists_waitResult w 0 pid with ⟨res, hallow⟩
  rcases hwaited (waitOutcome w res) with ⟨m', hm'⟩
  refine ⟨res, (w.afterWait res).setMemory 0 m', ?_⟩
  simp [step, stepWaitpid, hat, harg, hallow, hm']

theorem main_enabled {opened : List Nat} {w : World} {v : View}
    (hview : ViewOf w v) (hcontrol : Control v.mem) (hbooks : Books opened v)
    (hnever : NeverDone v.mem) :
    exists a w', byMain a = true ∧ step w a = some w' := by
  rcases hcontrol.threads.main with ⟨pc, hpc, hmain⟩
  have hat : w.at? 0 0 = some (v.mem, pc) :=
    at?_some_iff.mpr ⟨hview.memory, hpc⟩
  cases pc with
  | launch i =>
      cases hcaller : callerAt v.mem (.launch i) with
      | none =>
          rcases enabled_visit hat hcaller with ⟨w', hstep⟩
          exact ⟨_, w', by decide, hstep⟩
      | some caller =>
          rcases enabled_fork hat hcaller with ⟨w', hstep⟩
          exact ⟨_, w', rfl, hstep⟩
  | poll i =>
      refine ⟨.visit 0 0, w.setMemory 0 (pollVisit v.mem 0 i), by decide, ?_⟩
      simp [step, stepVisit, hat]
  | drain i =>
      rcases hcontrol.visiting i (Or.inl hpc) with
        ⟨script, fp, hscript, _, hfp⟩
      have harg : drainArg v.mem (.drain i) = some fp := by
        simp [drainArg, hscript, hfp]
      have hlt := hbooks.pipes fp (hbooks.stream i script fp hscript hfp)
      rw [hview.pipes] at hlt
      rcases enabled_fgets hat harg hlt with ⟨w', hstep⟩
      exact ⟨_, w', by decide, hstep⟩
  | reap i =>
      rcases hcontrol.visiting i (Or.inr hpc) with
        ⟨script, fp, hscript, _, hfp⟩
      have harg : waitArg v.mem (.reap i) = some script.pid := by
        simp [waitArg, hscript]
      have hwaited : forall res, exists m',
          waited v.mem 0 res (.reap i) = some m' := fun res =>
        ⟨pollWaited v.mem 0 i script fp res, by simp [waited, hscript, hfp]⟩
      rcases enabled_wait hat harg hwaited with ⟨res, w', hstep⟩
      exact ⟨_, w', rfl, hstep⟩
  | sleep =>
      refine ⟨.wake 0 0, w.setMemory 0 (v.mem.goto 0 (.launch 0)), by decide, ?_⟩
      simp [step, stepWake, hat]
  | helper x g =>
      cases x with
      | dumpLog d => exact absurd hmain id
      | hardware =>
          cases g with
          | fork =>
              have hcaller : callerAt v.mem (.helper .hardware .fork) =
                  some (.helper .hardware) := rfl
              rcases enabled_fork hat hcaller with ⟨w', hstep⟩
              exact ⟨_, w', rfl, hstep⟩
          | drain pid fp =>
              have hlt := (hbooks.helper .hardware pid fp
                ⟨0, .drain pid fp, hpc, Or.inl rfl⟩).left
              rw [hview.pipes] at hlt
              have hfp : drainArg v.mem (.helper .hardware (.drain pid fp)) =
                  some fp := rfl
              rcases enabled_fgets hat hfp hlt with ⟨w', hstep⟩
              exact ⟨_, w', by decide, hstep⟩
          | reap pid fp =>
              have harg : waitArg v.mem (.helper .hardware (.reap pid fp)) =
                  some pid := rfl
              rcases enabled_wait hat harg fun res =>
                ⟨helperWaited v.mem 0 .hardware pid fp res, rfl⟩ with
                ⟨res, w', hstep⟩
              exact ⟨_, w', rfl, hstep⟩
          | done => exact absurd hpc hnever
  | execve caller pipe => exact absurd hmain id
  | forkTail caller pipe => exact absurd hmain id

/-- In no run does `main` get stuck, whatever fails: it always has a step to
take. -/
theorem main_goes_on {pid : Nat} {tests : List CString} {acts : List Action}
    {w : World} (hrun : run (start pid tests) acts = some w) :
    exists a w', byMain a = true ∧ step w a = some w' := by
  rcases passes_books hrun with ⟨opened, v, hview, hcontrol, hbooks, hnever⟩
  exact main_enabled hview hcontrol hbooks hnever

theorem main_goes_on_oneScript :
    exists w, run (start 1 ["hpl".toList]) oneScriptRun = some w ∧
      exists a w', byMain a = true ∧ step w a = some w' :=
  ⟨_, rfl, @main_goes_on 1 ["hpl".toList] oneScriptRun _ rfl⟩

/-!
# A pass ends

Every step of the main thread brings the end of the pass nearer, or it reads a line
that a test wrote.
-/

def passPlace (n : Nat) : PC -> Nat
  | .launch i => (n - i) + (3 * n + 4)
  | .poll i => 3 * (n - i) + 3
  | .drain i => 3 * (n - i) + 2
  | .reap i => 3 * (n - i) + 1
  | _ => 0

def unreadBytes (pipes : List Pipe) : Nat :=
  (pipes.map fun pipe => pipe.unread.length).sum

def passRank (w : World) : Nat :=
  match w.at? 0 0 with
  | some (m, pc) => passPlace m.scripts.length pc + unreadBytes w.pipes
  | none => 0

def Testing : PC -> Prop
  | .helper _ _ => False
  | _ => True

def InTests (w : World) : Prop :=
  exists m pc, w.at? 0 0 = some (m, pc) ∧ Testing pc

def Asleep (w : World) : Prop :=
  exists m, w.at? 0 0 = some (m, .sleep)

/-- No process writes to a pipe, and `main` does not begin another pass. -/
def SilentPass : Action -> Prop
  | .write _ _ => False
  | .wake p t => ¬ (p = 0 ∧ t = 0)
  | _ => True

theorem Move.testing {scripts scripts' : List BurninScript} {label : MoveLabel}
    {pc pc' : PC} (h : Move scripts label pc scripts' pc') (htest : Testing pc) :
    Testing pc' := by
  cases h with
  | follow => exact htest.elim
  | unfollowed hplace => exact htest.elim
  | helper hfollow => exact htest.elim
  | _ => trivial

/-- A move goes down, but for the end of the sleep and a line delivered. -/
theorem Move.passPlace {scripts scripts' : List BurninScript}
    {label : MoveLabel} {pc pc' : PC} (h : Move scripts label pc scripts' pc')
    (htest : Testing pc) :
    passPlace scripts.length pc' < passPlace scripts.length pc ∨ pc = .sleep ∨
      (pc' = pc ∧ exists i, pc = .drain i) := by
  have hin : forall {i : Nat} {script : BurninScript},
      scripts[i]? = some script -> i < scripts.length := fun hscript =>
    (List.getElem?_eq_some_iff.mp hscript).choose
  cases h with
  | launched ret hscript hrunning hret =>
      have hi := hin hscript
      left
      show _ - (_ + 1) + _ < _ - _ + _
      omega
  | follow => exact htest.elim
  | unfollowed hplace => exact htest.elim
  | skipped hscript hrunning =>
      have hi := hin hscript
      left
      show _ - (_ + 1) + _ < _ - _ + _
      omega
  | polling hnone =>
      left
      show 3 * (_ - 0) + 3 < _ - _ + (3 * _ + 4)
      omega
  | asleep hnone => exact Or.inl (Nat.succ_pos _)
  | passed hscript hstill =>
      have hi := hin hscript
      left
      show 3 * (_ - (_ + 1)) + 3 < 3 * (_ - _) + 3
      omega
  | draining hscript hrunning hfp => exact Or.inl (Nat.lt_succ_self _)
  | delivered data hscript => exact Or.inr (Or.inr ⟨rfl, _, rfl⟩)
  | dry => exact Or.inl (Nat.lt_succ_self _)
  | classified res hscript =>
      have hi := hin hscript
      left
      show 3 * (_ - (_ + 1)) + 3 < 3 * (_ - _) + 1
      omega
  | woken => exact Or.inr (Or.inl rfl)
  | helper hfollow => exact htest.elim
  | burnin => exact htest.elim

/-!
# What is left to read
-/

theorem unreadBytes_append (pipes : List Pipe) :
    unreadBytes (pipes ++ [Pipe.empty]) = unreadBytes pipes := by
  simp [unreadBytes, Pipe.empty]

theorem unreadBytes_set {pipes : List Pipe} {k : Nat} {pipe pipe' : Pipe}
    {line : List Char} (hpipe : pipes[k]? = some pipe)
    (hline : pipe.fgets BUFSIZ = some (line, pipe')) :
    unreadBytes (pipes.set k pipe') < unreadBytes pipes := by
  have hless := Pipe.fgets_shorter (by decide) hline
  unfold unreadBytes
  induction pipes generalizing k with
  | nil => cases hpipe
  | cons p rest ih =>
      cases k with
      | zero =>
          cases hpipe
          simpa using hless
      | succ k =>
          have hrest := ih (k := k) hpipe
          simpa using hrest

theorem unreadBytes_step {w w' : World} {a : Action} (h : step w a = some w')
    (hwrite : forall p bytes, a ≠ .write p bytes) :
    unreadBytes w'.pipes ≤ unreadBytes w.pipes := by
  cases a with
  | forkCmd p t caller out =>
      rcases stepFork_some h with ⟨m, pc, _, _, _, hfork⟩
      rcases forkCmd_some hfork with ⟨_, hw⟩ | ⟨pid, _, _, hw⟩
      · rw [hw]
        exact Nat.le_of_eq (unreadBytes_append _)
      · rw [hw]
        exact Nat.le_of_eq (unreadBytes_append _)
  | execve p ok =>
      rcases stepExecve_some h with ⟨m, caller, pipe, _, _, hw⟩
      rw [hw]
      split <;> exact Nat.le_refl _
  | forkTail p out =>
      rcases stepForkTail_some h with ⟨m, caller, pipe, _, _, hw⟩
      rw [hw]
      exact Nat.le_refl _
  | visit p t =>
      rcases stepVisit_some h with ⟨m, m', _, hw, _⟩
      rw [hw]
      exact Nat.le_refl _
  | fgets p t =>
      rcases stepFgets_some h with ⟨m, pc, m', fp, pipe, _, _, _, hpipe,
        ⟨_, _, hw⟩ | ⟨line, pipe', hline, _, hw⟩⟩
      · rw [hw]
        exact Nat.le_refl _
      · rw [hw]
        exact Nat.le_of_lt (unreadBytes_set hpipe hline)
  | waitpid p t res =>
      rcases stepWaitpid_some h with ⟨m, pc, pid, m', _, _, _, _, _, hw⟩
      rw [hw, setMemory_pipes, afterWait_pipes]
  | wake p t =>
      rcases stepWake_some h with ⟨m, _, _, hw⟩
      rw [hw]
      exact Nat.le_refl _
  | dumpLog =>
      rcases stepDumpLog_some h with ⟨m, _, hw⟩
      rw [hw]
      exact Nat.le_refl _
  | write p bytes => exact absurd rfl (hwrite p bytes)
  | exit p status =>
      rcases stepExit_some h with ⟨pr, l, _, _, _, hw⟩
      rw [hw]
      exact Nat.le_refl _

/-!
# The bound
-/

theorem actor_main {a : Action} {t : Nat} (hmain : byMain a = true)
    (hactor : actor a = some (0, t)) : t = 0 := by
  have heq := of_decide_eq_true hmain
  rw [hactor] at heq
  exact congrArg Prod.snd (Option.some.inj heq)

/-- The main thread left `pc` and is nearer to the end of its pass, or a line is off
its pipe. -/
def Nearer (v : View) (pc : PC) (v' : View) : Prop :=
  exists pc', mainPC v'.mem = some pc' ∧ Testing pc' ∧
    v'.mem.scripts.length = v.mem.scripts.length ∧
    (passPlace v.mem.scripts.length pc' < passPlace v.mem.scripts.length pc ∧
        unreadBytes v'.pipes = unreadBytes v.pipes ∨
      pc' = pc ∧ unreadBytes v'.pipes < unreadBytes v.pipes)

def Hurried (pc : PC) : Prop :=
  pc ≠ .sleep ∧ forall i, pc ≠ .drain i

theorem callerAt_hurried {m : Memory} {pc : PC} {caller : Caller}
    (h : callerAt m pc = some caller) : Hurried pc := by
  constructor
  · rintro rfl
    cases h
  · rintro i rfl
    cases h

theorem waitArg_hurried {m : Memory} {pc : PC} {pid : Int}
    (h : waitArg m pc = some pid) : Hurried pc := by
  constructor
  · rintro rfl
    cases h
  · rintro i rfl
    cases h

theorem nearer_of_move {v v' : View} {pc : PC} (hpc : mainPC v.mem = some pc)
    (htest : Testing pc) (hplace : Hurried pc)
    (hunread : unreadBytes v'.pipes = unreadBytes v.pipes)
    (hmove : exists label pc', v'.mem.threads = v.mem.threads.set 0 pc' ∧
      Move v.mem.scripts label pc v'.mem.scripts pc') : Nearer v pc v' := by
  rcases hmove with ⟨label, pc', hthreads, hmove⟩
  have hmain' : mainPC v'.mem = some pc' := by
    rcases mainPC_set hpc hthreads with ⟨_, _, hmain'⟩ | ⟨hne, _⟩
    · exact hmain'
    · exact absurd rfl hne
  refine ⟨pc', hmain', hmove.testing htest, hmove.length, ?_⟩
  rcases hmove.passPlace htest with hlt | heq | ⟨_, i, heq⟩
  · exact Or.inl ⟨hlt, hunread⟩
  · exact absurd heq hplace.left
  · exact absurd heq (hplace.right i)

theorem nearer_of_drained {v : View} {m : Memory} {pc : PC} {fp : Nat}
    (hpc : mainPC v.mem = some pc) (htest : Testing pc)
    (hfp : drainArg v.mem pc = some fp)
    (hdrained : drained v.mem 0 none pc = some m) :
    Nearer v pc { v with mem := m } := by
  cases pc with
  | drain i =>
      cases hscript : v.mem.scripts[i]? with
      | none => simp [drained, hscript] at hdrained
      | some script =>
          simp only [drained, hscript, Option.some.injEq] at hdrained
          rw [← hdrained]
          have hpos := (List.getElem?_eq_some_iff.mp hpc).choose
          refine ⟨.reap i, ?_, trivial, rfl, Or.inl ⟨Nat.lt_succ_self _, rfl⟩⟩
          exact List.getElem?_set_self hpos
  | helper x g => exact htest.elim
  | _ => cases hfp

theorem nearer_of_line {v : View} {m : Memory} {pc : PC} {fp : Nat}
    {pipe pipe' : Pipe} {data : List Char}
    (hpc : mainPC v.mem = some pc) (htest : Testing pc)
    (hpipe : v.pipes[fp]? = some pipe)
    (hline : pipe.fgets BUFSIZ = some (data, pipe'))
    (hdrained : drained v.mem 0 (some data) pc = some m) :
    Nearer v pc { v with mem := m, pipes := v.pipes.set fp pipe' } := by
  cases pc with
  | drain i =>
      cases hscript : v.mem.scripts[i]? with
      | none => simp [drained, hscript] at hdrained
      | some script =>
          simp only [drained, hscript, Option.some.injEq] at hdrained
          rw [← hdrained]
          exact ⟨.drain i, hpc, trivial, List.length_modify _ _ _,
            Or.inr ⟨rfl, unreadBytes_set hpipe hline⟩⟩
  | helper x g => exact htest.elim
  | _ => cases hdrained

theorem RootStep.nearer {v v' : View} {a : Action} (h : RootStep v a v')
    (hmain : byMain a = true) (hsilent : SilentPass a) {pc : PC}
    (hpc : mainPC v.mem = some pc) (htest : Testing pc) : Nearer v pc v' := by
  cases h with
  | foreign extra hf hnone hlen =>
      rw [hf.not_byMain] at hmain
      cases hmain
  | execve hp => cases hmain
  | write out hout => cases hmain
  | exit halive => cases hmain
  | dumpLog => cases hmain
  | forkFailed hthread hcaller hchild =>
      cases actor_main hmain rfl
      cases Option.some.inj (hpc.symm.trans hthread)
      exact nearer_of_move hpc htest (callerAt_hurried hcaller)
        (unreadBytes_append _) ⟨_, forkReturned_move hcaller _ _ _ _⟩
  | forked hthread hcaller hchild hpos hfree =>
      cases actor_main hmain rfl
      cases Option.some.inj (hpc.symm.trans hthread)
      exact nearer_of_move hpc htest (callerAt_hurried hcaller)
        (unreadBytes_append _) ⟨_, forkReturned_move hcaller _ _ _ _⟩
  | launch hthread hvisit =>
      cases actor_main hmain rfl
      cases Option.some.inj (hpc.symm.trans hthread)
      exact nearer_of_move hpc htest
        ⟨PC.noConfusion, fun _ => PC.noConfusion⟩ rfl
        ⟨none, launchVisit_move hvisit⟩
  | poll hthread =>
      cases actor_main hmain rfl
      cases Option.some.inj (hpc.symm.trans hthread)
      exact nearer_of_move hpc htest
        ⟨PC.noConfusion, fun _ => PC.noConfusion⟩ rfl
        ⟨none, pollVisit_move v.mem 0 _⟩
  | drained hthread hfp hpipe hempty hdrained =>
      cases actor_main hmain rfl
      cases Option.some.inj (hpc.symm.trans hthread)
      exact nearer_of_drained hpc htest hfp hdrained
  | line hthread hfp hpipe hline hdrained =>
      cases actor_main hmain rfl
      cases Option.some.inj (hpc.symm.trans hthread)
      exact nearer_of_line hpc htest hpipe hline hdrained
  | waitError hthread harg hnone hwaited =>
      cases actor_main hmain rfl
      cases Option.some.inj (hpc.symm.trans hthread)
      exact nearer_of_move hpc htest (waitArg_hurried harg) rfl
        ⟨none, waited_move hwaited⟩
  | waitNochange hthread harg hsome hnone hwaited =>
      cases actor_main hmain rfl
      cases Option.some.inj (hpc.symm.trans hthread)
      exact nearer_of_move hpc htest (waitArg_hurried harg) rfl
        ⟨none, waited_move hwaited⟩
  | waitReaped hthread harg hc hselect hlife hwaited =>
      cases actor_main hmain rfl
      cases Option.some.inj (hpc.symm.trans hthread)
      exact nearer_of_move hpc htest (waitArg_hurried harg) rfl
        ⟨none, waited_move hwaited⟩
  | wake hthread =>
      cases actor_main hmain rfl
      exact absurd ⟨rfl, rfl⟩ hsilent

def TestsReached (w : World) : Prop :=
  exists opened v pc, ViewOf w v ∧ Control v.mem ∧ Books opened v ∧
    NeverDone v.mem ∧ mainPC v.mem = some pc ∧ Testing pc

theorem passRank_eq {w : World} {v : View} {pc : PC} (hview : ViewOf w v)
    (hpc : mainPC v.mem = some pc) :
    passRank w = passPlace v.mem.scripts.length pc + unreadBytes v.pipes := by
  have hat : w.at? 0 0 = some (v.mem, pc) :=
    at?_some_iff.mpr ⟨hview.memory, hpc⟩
  simp only [passRank, hat, hview.pipes]

theorem TestsReached.step {w w' : World} {a : Action} (h : TestsReached w)
    (hsilent : SilentPass a) (hstep : step w a = some w') :
    TestsReached w' ∧
      passRank w' + (if byMain a then 1 else 0) ≤ passRank w := by
  rcases h with ⟨opened, v, pc, hview, hcontrol, hbooks, hnever, hpc, htest⟩
  rcases rootStep_of_step hview hcontrol.threads hstep with
    ⟨v', hview', hroot⟩
  have hcontrol' := hroot.control hcontrol
  have hbooks' := hbooks.step hroot
  have hnever' := hroot.neverDone hcontrol.threads hnever
  rw [passRank_eq hview hpc]
  cases hmain : byMain a with
  | true =>
      rcases hroot.nearer hmain hsilent hpc htest with
        ⟨pc', hpc', htest', hlen, hless⟩
      refine ⟨⟨_, v', pc', hview', hcontrol', hbooks', hnever', hpc', htest'⟩, ?_⟩
      rw [passRank_eq hview' hpc', hlen]
      rcases hless with ⟨hplace, hunread⟩ | ⟨heq, hunread⟩
      · simp only [if_true]
        omega
      · rw [heq]
        simp only [if_true]
        omega
  | false =>
      cases hroot.mainTurn hcontrol.threads with
      | own hown _ _ _ =>
          rw [hmain] at hown
          cases hown
      | other _ hsame hscripts =>
          have hpc' : mainPC v'.mem = some pc := hsame.trans hpc
          refine ⟨⟨_, v', pc, hview', hcontrol', hbooks', hnever', hpc', htest⟩,
            ?_⟩
          rw [passRank_eq hview' hpc', hscripts]
          have hwrite : forall p bytes, a ≠ .write p bytes := by
            rintro p bytes rfl
            exact hsilent
          have hunread := unreadBytes_step hstep hwrite
          rw [← hview.pipes, ← hview'.pipes] at hunread
          simpa using hunread

/-- Once the tests have begun, every pass ends: while nothing is written to a pipe the
main thread takes at most `passRank` steps before it sleeps, whatever the other threads
and processes do meanwhile; and left alone it gets to its sleep. -/
theorem passes_end {pid : Nat} {tests : List CString} {pre : List Action}
    {w : World} (hrun : run (start pid tests) pre = some w)
    (htests : InTests w) :
    (forall acts w', (forall a, a ∈ acts -> SilentPass a) ->
      run w acts = some w' -> acts.countP byMain ≤ passRank w) ∧
    exists acts w', (forall a, a ∈ acts -> byMain a = true ∧ SilentPass a) ∧
      run w acts = some w' ∧ Asleep w' ∧ acts.length ≤ passRank w := by
  have hreached : TestsReached w := by
    rcases passes_books hrun with ⟨opened, v, hview, hcontrol, hbooks, hnever⟩
    rcases htests with ⟨m, pc, hat, htest⟩
    rcases at?_some_iff.mp hat with ⟨hmem, hpc⟩
    rw [hview.mem_eq hmem] at hpc
    exact ⟨opened, v, pc, hview, hcontrol, hbooks, hnever, hpc, htest⟩
  constructor
  · intro acts w' hsilent hrun'
    exact countP_le_rank (P := TestsReached) (C := fun _ a => SilentPass a)
      (fun _ _ _ h ha hstep => h.step ha hstep) hreached
      (stepsMeet_of_mem hsilent) hrun'
  · have hgo : forall s, TestsReached s -> ¬ Asleep s ->
        exists a t, (byMain a = true ∧ SilentPass a) ∧
          Scheduler.step s a = some t ∧ TestsReached t ∧
            passRank t < passRank s := by
      intro s h hawake
      rcases h with ⟨opened, v, pc, hview, hcontrol, hbooks, hnever, hpc, htest⟩
      rcases main_enabled hview hcontrol hbooks hnever with
        ⟨a, t, hmain, hstep⟩
      have hsilent : SilentPass a := by
        cases a with
        | write p bytes => cases hmain
        | wake p t =>
            rintro ⟨rfl, rfl⟩
            rcases stepWake_some hstep with ⟨m, hmem, hsleep, _⟩
            exact hawake ⟨m, at?_some_iff.mpr ⟨hmem, hsleep⟩⟩
        | _ => trivial
      rcases TestsReached.step ⟨opened, v, pc, hview, hcontrol, hbooks, hnever,
        hpc, htest⟩ hsilent hstep with ⟨ht, hless⟩
      rw [hmain, if_pos rfl] at hless
      exact ⟨a, t, ⟨hmain, hsilent⟩, hstep, ht, hless⟩
    exact runFrom_descends hgo hreached

theorem passes_end_oneScript :
    exists w, run (start 1 ["hpl".toList]) oneScriptRun = some w ∧
      (forall acts w', (forall a, a ∈ acts -> SilentPass a) ->
        run w acts = some w' -> acts.countP byMain ≤ passRank w) ∧
      exists acts w', (forall a, a ∈ acts -> byMain a = true ∧ SilentPass a) ∧
        run w acts = some w' ∧ Asleep w' ∧ acts.length ≤ passRank w :=
  ⟨_, rfl, @passes_end 1 ["hpl".toList] oneScriptRun _ rfl
    ⟨_, _, rfl, trivial⟩⟩

end Scheduler
end Breakin
