import Breakin.Scheduler.Moves

/-!
# The control invariant

`running` is one of -1, 0 and 1, the threads keep their kinds, and the main thread
drains and reaps only a slot that is running and has a stream.  It holds in every
run, whatever fails.
-/

namespace Breakin
namespace Scheduler

open Foundation

def InRange (script : BurninScript) : Prop :=
  script.running = -1 ∨ script.running = 0 ∨ script.running = 1

structure Control (m : Memory) : Prop where
  threads : RootThreads m
  range : forall (i : Nat) script, m.scripts[i]? = some script -> InRange script
  visiting : forall i : Nat, m.threads[0]? = some (.drain i) ∨
      m.threads[0]? = some (.reap i) ->
    exists script fp, m.scripts[i]? = some script ∧ script.running = 1 ∧
      script.fpStdout = some fp

theorem Move.main {scripts scripts' : List BurninScript} {label : MoveLabel}
    {pc pc' : PC} (h : Move scripts label pc scripts' pc') (hmain : MainPC pc) :
    MainPC pc' := by
  cases h with
  | follow =>
      rename_i x pipe pid
      cases x with
      | hardware => trivial
      | dumpLog d => exact hmain
  | unfollowed hpc' =>
      rename_i x pipe pid
      rcases hpc' with heq | ⟨_, heq⟩
      · cases x with
        | hardware =>
            rw [heq]
            trivial
        | dumpLog d => exact absurd hmain id
      · rw [heq]
        trivial
  | helper hfollow =>
      rename_i x hpc hpc'
      cases x with
      | hardware => trivial
      | dumpLog d => exact hmain
  | _ => trivial

/-- A `dump_log` thread never touches the table. -/
theorem Move.dump {scripts scripts' : List BurninScript} {t : Nat} {label : MoveLabel}
    {pc pc' : PC} (h : Move scripts label pc scripts' pc') (hdump : DumpPC t pc) :
    DumpPC t pc' ∧ scripts' = scripts := by
  cases h with
  | follow => exact ⟨hdump, rfl⟩
  | unfollowed hpc' =>
      rcases hpc' with heq | ⟨hx, _⟩
      · rw [heq]
        exact ⟨hdump, rfl⟩
      · rw [hx] at hdump
        cases hdump
  | helper hfollow => exact ⟨hdump, rfl⟩
  | burnin => cases hdump
  | _ => exact absurd hdump id

theorem rootThreads_set {m m' : Memory} {t : Nat} {label : MoveLabel}
    {pc pc' : PC}
    (h : RootThreads m) (hpc : m.threads[t]? = some pc)
    (hthreads : m'.threads = m.threads.set t pc')
    (hmove : Move m.scripts label pc m'.scripts pc') : RootThreads m' where
  main := by
    rcases h.main with ⟨pc0, hpc0, hmain⟩
    rw [hthreads, List.getElem?_set]
    by_cases ht : t = 0
    · subst ht
      rw [hpc0] at hpc
      have hpos : 0 < m.threads.length :=
        (List.getElem?_eq_some_iff.mp hpc0).choose
      rw [← Option.some.inj hpc] at hmove
      exact ⟨pc', by simp [hpos], hmove.main hmain⟩
    · exact ⟨pc0, by simp [ht, hpc0], hmain⟩
  dump := by
    intro q pcq hq hthread
    rw [hthreads, List.getElem?_set] at hthread
    by_cases ht : t = q
    · subst ht
      have hlt : t < m.threads.length :=
        (List.getElem?_eq_some_iff.mp hpc).choose
      simp only [if_pos hlt, if_true, Option.some.injEq] at hthread
      rw [← hthread]
      exact (hmove.dump (h.dump t pc hq hpc)).left
    · rw [if_neg ht] at hthread
      exact h.dump q pcq hq hthread

theorem rootThreads_append {m m' : Memory} (h : RootThreads m)
    (hthreads : m'.threads = m.threads ++
      [.helper (.dumpLog m.threads.length) .fork]) : RootThreads m' where
  main := by
    rcases h.main with ⟨pc0, hpc0, hmain⟩
    have hpos : 0 < m.threads.length :=
      (List.getElem?_eq_some_iff.mp hpc0).choose
    exact ⟨pc0, by rw [hthreads, List.getElem?_append_left hpos, hpc0], hmain⟩
  dump := by
    intro q pcq hq hthread
    rw [hthreads, List.getElem?_append] at hthread
    by_cases hlt : q < m.threads.length
    · rw [if_pos hlt] at hthread
      exact h.dump q pcq hq hthread
    · rw [if_neg hlt, List.getElem?_singleton] at hthread
      split at hthread
      · rename_i heq
        cases hthread
        have hq' : q = m.threads.length := by omega
        rw [hq']
        rfl
      · cases hthread

theorem RootThreads.main_of_not_dump {m : Memory} {t : Nat} {pc : PC}
    (h : RootThreads m) (hpc : m.threads[t]? = some pc)
    (hnot : ¬ DumpPC t pc) : t = 0 := by
  rcases Nat.eq_zero_or_pos t with hzero | hpos
  · exact hzero
  · exact absurd (h.dump t pc hpos hpc) hnot

theorem classify_inRange {script : BurninScript} {res : WaitOutcome}
    (h : InRange script) : InRange (classify script res) := by
  cases res with
  | error => exact Or.inr (Or.inl rfl)
  | nochange => exact h
  | status st =>
      cases st with
      | signaled sig => exact Or.inl rfl
      | exited code =>
          unfold classify
          simp only
          split
          · exact Or.inl rfl
          · split
            · exact Or.inr (Or.inl rfl)
            · exact Or.inr (Or.inl rfl)

theorem modify_cases {scripts : List BurninScript} {i j : Nat}
    {f : BurninScript -> BurninScript} {script : BurninScript}
    (h : (scripts.modify i f)[j]? = some script) :
    exists old, scripts[j]? = some old ∧
      script = if i = j then f old else old := by
  rw [List.getElem?_modify] at h
  rcases Option.map_eq_some_iff.mp h with ⟨old, hold, heq⟩
  exact ⟨old, hold, heq.symm⟩

theorem Move.range {scripts scripts' : List BurninScript} {label : MoveLabel}
    {pc pc' : PC} (h : Move scripts label pc scripts' pc')
    (hrange : forall (i : Nat) script, scripts[i]? = some script -> InRange script) :
    forall (i : Nat) script, scripts'[i]? = some script -> InRange script := by
  intro j script hscript
  cases h with
  | launched ret hold hrunning hret =>
      rcases modify_cases hscript with ⟨old, hj, heq⟩
      rw [heq]
      split
      · exact Or.inr (Or.inr rfl)
      · exact hrange j old hj
  | delivered data hold =>
      rcases modify_cases hscript with ⟨old, hj, heq⟩
      rw [heq]
      split <;> exact hrange j old hj
  | classified res hold =>
      rcases modify_cases hscript with ⟨old, hj, heq⟩
      rw [heq]
      split
      · exact classify_inRange (hrange j old hj)
      · exact hrange j old hj
  | _ => exact hrange j script hscript

theorem Move.visiting {scripts scripts' : List BurninScript} {label : MoveLabel}
    {pc pc' : PC} (h : Move scripts label pc scripts' pc') {i : Nat}
    (hrange : forall (i : Nat) script, scripts[i]? = some script -> InRange script)
    (hvisit : forall i, pc = .drain i ∨ pc = .reap i ->
      exists script fp, scripts[i]? = some script ∧ script.running = 1 ∧
        script.fpStdout = some fp)
    (hpc' : pc' = .drain i ∨ pc' = .reap i) :
    exists script fp, scripts'[i]? = some script ∧ script.running = 1 ∧
      script.fpStdout = some fp := by
  cases h with
  | draining hscript hrunning hfp =>
      rename_i k fp script
      have hik : k = i := by
        rcases hpc' with heq | heq <;> cases heq
        rfl
      rw [← hik]
      refine ⟨script, fp, hscript, ?_, hfp⟩
      rcases hrange k script hscript with hneg | hzero | hone
      · omega
      · omega
      · exact hone
  | delivered data hscript =>
      rename_i k script
      have hik : k = i := by
        rcases hpc' with heq | heq <;> cases heq
        rfl
      rcases hvisit k (Or.inl rfl) with ⟨old, fp, hold, hrunning, hfp⟩
      rw [← hik]
      exact ⟨deliver old data, fp, by simp [hold], hrunning, hfp⟩
  | dry =>
      rename_i k
      have hik : k = i := by
        rcases hpc' with heq | heq <;> cases heq
        rfl
      rw [← hik]
      exact hvisit k (Or.inl rfl)
  | unfollowed hplace =>
      rcases hplace with hdone | ⟨_, hlaunch⟩
      · rw [hdone] at hpc'
        rcases hpc' with heq | heq <;> cases heq
      · rw [hlaunch] at hpc'
        rcases hpc' with heq | heq <;> cases heq
  | _ => rcases hpc' with heq | heq <;> cases heq

theorem Control.set {m m' : Memory} {t : Nat} {label : MoveLabel}
    {pc pc' : PC} (h : Control m)
    (hpc : m.threads[t]? = some pc)
    (hthreads : m'.threads = m.threads.set t pc')
    (hmove : Move m.scripts label pc m'.scripts pc') : Control m' where
  threads := rootThreads_set h.threads hpc hthreads hmove
  range := hmove.range h.range
  visiting := by
    intro i hvisit
    rw [hthreads, List.getElem?_set] at hvisit
    by_cases ht : t = 0
    · subst ht
      have hpos : 0 < m.threads.length :=
        (List.getElem?_eq_some_iff.mp hpc).choose
      simp only [if_pos hpos, if_true, Option.some.injEq] at hvisit
      apply hmove.visiting h.range _ hvisit
      intro j hj
      apply h.visiting j
      rcases hj with heq | heq
      · exact Or.inl (heq ▸ hpc)
      · exact Or.inr (heq ▸ hpc)
    · simp only [if_neg ht] at hvisit
      have hdump := h.threads.dump t pc (Nat.pos_of_ne_zero ht) hpc
      rw [(hmove.dump hdump).right]
      exact h.visiting i hvisit

theorem RootStep.control {v v' : View} {a : Action} (h : RootStep v a v')
    (hcontrol : Control v.mem) : Control v'.mem := by
  rcases h.move with ⟨hthreads, hscripts⟩ | ⟨_, hscripts, hthreads⟩ |
    ⟨t, label, pc, pc', hpc, hthreads, hmove, _⟩
  · constructor
    · constructor
      · rw [hthreads]
        exact hcontrol.threads.main
      · rw [hthreads]
        exact hcontrol.threads.dump
    · rw [hscripts]
      exact hcontrol.range
    · rw [hthreads, hscripts]
      exact hcontrol.visiting
  · have hroot := rootThreads_append hcontrol.threads hthreads
    rcases hcontrol.threads.main with ⟨pc0, hpc0, _hmain⟩
    have hpos : 0 < v.mem.threads.length :=
      (List.getElem?_eq_some_iff.mp hpc0).choose
    refine ⟨hroot, ?_, ?_⟩
    · rw [hscripts]
      exact hcontrol.range
    · rw [hthreads, hscripts, List.getElem?_append_left hpos]
      exact hcontrol.visiting
  · exact hcontrol.set hpc hthreads hmove

/-!
# Invariants over whole runs
-/

def startView (tests : List CString) : View where
  mem :=
    { scripts := tests.map BurninScript.found
      threads := [.helper .hardware .fork]
      fds := []
      log := [] }
  children := [none]
  pipes := []

theorem viewOf_start (pid : Nat) (tests : List CString) :
    ViewOf (start pid tests) (startView tests) where
  root := ⟨pid, rfl⟩
  children := rfl
  pipes := rfl

theorem control_start (tests : List CString) :
    Control (startView tests).mem where
  threads :=
    { main := ⟨_, rfl, trivial⟩
      dump := by
        intro t pc ht hthread
        rw [List.getElem?_eq_none (show 1 ≤ t from ht)] at hthread
        cases hthread }
  range := by
    intro i script hscript
    simp only [startView, List.getElem?_map, Option.map_eq_some_iff] at hscript
    rcases hscript with ⟨name, _hname, heq⟩
    rw [← heq]
    exact Or.inr (Or.inl rfl)
  visiting := by
    intro i hvisit
    rcases hvisit with heq | heq <;> cases heq

/-- The run rule of the view: what the first view has and what every step of the
view keeps holds after every run whose actions meet `C`. -/
theorem view_run {P : View -> Prop} {C : World -> Action -> Prop}
    {pid : Nat} {tests : List CString} {acts : List Action} {w : World}
    (hstart : P (startView tests))
    (hkeep : forall w v a v', ViewOf w v -> Control v.mem -> P v -> C w a ->
      RootStep v a v' -> P v')
    (hmeet : StepsMeet step (start pid tests) acts C)
    (hrun : run (start pid tests) acts = some w) :
    exists v, ViewOf w v ∧ Control v.mem ∧ P v := by
  refine runFrom_invariant
    (P := fun w => exists v, ViewOf w v ∧ Control v.mem ∧ P v) ?_
    ⟨_, viewOf_start pid tests, control_start tests, hstart⟩ hmeet hrun
  intro s a t hs ha hstep
  rcases hs with ⟨v, hview, hcontrol, hP⟩
  rcases rootStep_of_step hview hcontrol.threads hstep with ⟨v', hview', hroot⟩
  exact ⟨v', hview', hroot.control hcontrol,
    hkeep s v a v' hview hcontrol hP ha hroot⟩

end Scheduler
end Breakin
