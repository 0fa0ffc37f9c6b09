import Breakin.Scheduler.Launches

/-!
# One child per script, and disabling is final

The three parts are invariants of every reachable state: the ownership invariant
gives the single child, the loop of `run_burnin_tests` is followed slot by slot
from its first test to its last, and a slot at -1 is skipped by every step that
could change it.
-/

namespace Breakin
namespace Scheduler

open Foundation

def Process.LaunchedFor (pr : Process) (i : Nat) : Prop :=
  exists p k, pr.launched = some { parent := p, caller := .burnin i, out := k }

def AtMostOneChild (w : World) : Prop :=
  forall (i q q' : Nat) pr pr', w.procs[q]? = some pr ->
    w.procs[q']? = some pr' -> pr.LaunchedFor i -> pr'.LaunchedFor i ->
      pr.Unreaped -> pr'.Unreaped -> q = q'

/-- The slots a call of `run_burnin_tests` finds with `running == 0`. -/
def idleIn (scripts : List BurninScript) (i : Nat) : Bool :=
  match scripts[i]? with
  | some script => script.running == 0
  | none => false

def idleSlots (m : Memory) : List Nat :=
  (List.range m.scripts.length).filter (idleIn m.scripts)

/-- From the first test of its loop to its last, `run_burnin_tests` launches the
idle slots, in order and each once, and no other slot. -/
def LaunchesIdle (w : World) : Prop :=
  forall m acts w' m', w.memory? 0 = some m ->
    mainPC m = some (.launch 0) -> ExecRun w acts w' -> .wake 0 0 ∉ acts ->
      w'.memory? 0 = some m' -> mainPC m' = some (.poll 0) ->
        launchedIn acts = idleSlots m

def RunningInRange (w : World) : Prop :=
  forall m (i : Nat) script, w.memory? 0 = some m ->
    m.scripts[i]? = some script -> InRange script

/-- In every continuation a disabled slot keeps its whole entry, and nothing is
launched for it. -/
def DisabledIsFinal (w : World) : Prop :=
  forall m (i : Nat) script, w.memory? 0 = some m ->
    m.scripts[i]? = some script -> script.running = -1 ->
      forall acts w', ExecRun w acts w' ->
        i ∉ launchedIn acts ∧ exists m', w'.memory? 0 = some m' ∧
          m'.scripts[i]? = some script

/-!
# At most one child
-/

theorem Good.child_of_launched {w : World} {v : View} (h : Good w v) {q i : Nat}
    {pr : Process} (hproc : w.procs[q]? = some pr)
    (hlaunched : pr.LaunchedFor i) :
    exists c, v.Has q c ∧ c.caller = .burnin i ∧ c.life = pr.life := by
  rcases hlaunched with ⟨p, k, hl⟩
  cases hchild : childOf pr with
  | none =>
      have hcell : v.children[q]? = some none := by
        rw [h.view.children, List.getElem?_map, hproc, Option.map_some, hchild]
      exact absurd (h.children q hcell) (h.view.launched_ne_root hproc hl)
  | some c =>
      rcases childOf_some_iff.mp hchild with ⟨hl', _, hlife⟩
      rw [hl, Option.some.injEq, Launched.mk.injEq] at hl'
      exact ⟨c, h.view.has_iff.mpr ⟨pr, hproc, hchild⟩, hl'.right.left.symm,
        hlife.symm⟩

theorem Good.atMostOneChild {w : World} {v : View} (h : Good w v) :
    AtMostOneChild w := by
  intro i q q' pr pr' hproc hproc' hfor hfor' hun hun'
  rcases h.child_of_launched hproc hfor with ⟨c, hc, hcaller, hlife⟩
  rcases h.child_of_launched hproc' hfor' with ⟨c', hc', hcaller', hlife'⟩
  apply h.owned.slots.single q q' c c' i hc hc' _ _ hcaller hcaller'
  · unfold Child.Unreaped
    rw [hlife]
    exact hun
  · unfold Child.Unreaped
    rw [hlife']
    exact hun'

/-!
# A disabled slot
-/

theorem modify_other {scripts : List BurninScript} {i j : Nat}
    {f : BurninScript -> BurninScript} (h : i ≠ j) :
    (scripts.modify i f)[j]? = scripts[j]? := by
  simp [h]

/-- No move changes a slot at -1: launching needs 0, draining and reaping 1. -/
theorem Move.disabled {scripts scripts' : List BurninScript} {label : MoveLabel}
    {pc pc' : PC} (h : Move scripts label pc scripts' pc') {i : Nat}
    {script : BurninScript} (hscript : scripts[i]? = some script)
    (hdisabled : script.running = -1)
    (hvisit : forall j, pc = .drain j ∨ pc = .reap j ->
      exists script fp, scripts[j]? = some script ∧ script.running = 1 ∧
        script.fpStdout = some fp) :
    scripts'[i]? = some script ∧ slotOf label ≠ some i := by
  have hbusy : forall {j : Nat}, pc = .drain j ∨ pc = .reap j -> j ≠ i := by
    intro j hj heq
    rcases hvisit j hj with ⟨old, fp, hold, hrun, _⟩
    rw [heq, hscript] at hold
    cases hold
    omega
  cases h with
  | launched ret hold hidle hret =>
      rename_i j pipe pid old
      have hne : j ≠ i := by
        intro heq
        rw [heq, hscript] at hold
        cases hold
        omega
      refine ⟨by rw [modify_other hne]; exact hscript, ?_⟩
      intro heq
      exact hne (Option.some.inj heq)
  | delivered data hold =>
      refine ⟨?_, by intro heq; cases heq⟩
      rw [modify_other (hbusy (Or.inl rfl))]
      exact hscript
  | classified res hold =>
      refine ⟨?_, by intro heq; cases heq⟩
      rw [modify_other (hbusy (Or.inr rfl))]
      exact hscript
  | _ => exact ⟨hscript, by intro heq; cases heq⟩

theorem MainStep.disabled {m m' : Memory} {a : Action} (h : MainStep m a m')
    (hforeign : ¬ Foreign a) (hcontrol : Control m) {i : Nat} {script : BurninScript}
    (hscript : m.scripts[i]? = some script) (hdisabled : script.running = -1) :
    m'.scripts[i]? = some script ∧ launchOf a ≠ some i := by
  cases h with
  | other hmain hsame hlaunch hawake =>
      rw [hsame, hlaunch hforeign]
      exact ⟨hscript, by intro heq; cases heq⟩
  | move hmain hmain' hmove hlaunch hwake =>
      rw [hlaunch]
      apply hmove.disabled hscript hdisabled
      intro j hj
      apply hcontrol.visiting j
      rcases hj with heq | heq
      · exact Or.inl (heq ▸ hmain)
      · exact Or.inr (heq ▸ hmain)

theorem Good.disabledIsFinal {w : World} {v : View} (h : Good w v) :
    DisabledIsFinal w := by
  intro m i script hmem hscript hdisabled acts w' hrun
  rw [h.view.mem_eq hmem] at hscript
  have hkeep : forall acts a u v1 v2, Good u v1 ->
      (i ∉ launchedIn acts ∧ v1.mem.scripts[i]? = some script) ->
        RootStep v1 a v2 -> ¬ Foreign a -> ¬ ExecveFails a ->
          i ∉ launchedIn (acts ++ [a]) ∧ v2.mem.scripts[i]? = some script := by
    intro acts a u v1 v2 hgood1 hR hroot hforeign _hexec
    rcases hR with ⟨hnot, hslot⟩
    rcases (hroot.mainStep hgood1.control.threads).disabled hforeign
      hgood1.control hslot hdisabled with ⟨hslot', hlaunch⟩
    refine ⟨?_, hslot'⟩
    rw [launchedIn_snoc, List.mem_append, not_or]
    refine ⟨hnot, ?_⟩
    intro hnew
    exact hlaunch (Option.mem_toList.mp hnew)
  rcases good_history h ⟨by simp [launchedIn], hscript⟩ hkeep hrun with
    ⟨v', hgood', hnot, hscript'⟩
  exact ⟨hnot, v'.mem, hgood'.view.memory, hscript'⟩

/-!
# The loop of run_burnin_tests
-/

def InPass : PC -> Prop
  | .poll _ => True
  | .drain _ => True
  | .reap _ => True
  | .sleep => True
  | _ => False

theorem Move.inPass {scripts scripts' : List BurninScript} {label : MoveLabel}
    {pc pc' : PC} (h : Move scripts label pc scripts' pc') (hpass : InPass pc)
    (hawake : pc ≠ .sleep) : InPass pc' ∧ slotOf label = none := by
  cases h with
  | woken => exact absurd rfl hawake
  | launched => cases hpass
  | follow => cases hpass
  | unfollowed => cases hpass
  | skipped => cases hpass
  | helper => cases hpass
  | burnin => cases hpass
  | _ => exact ⟨trivial, rfl⟩

/-- Where the loop stands: at slot `j`, with the idle slots before it launched and
the slots from `j` on as they were, or past its end. -/
inductive LoopAt (scripts : List BurninScript) (acts : List Action)
    (m : Memory) : Prop where
  | launching (j : Nat) :
      mainPC m = some (.launch j) ->
      j ≤ scripts.length ->
      launchedIn acts = (List.range j).filter (idleIn scripts) ->
      (forall k, j ≤ k -> m.scripts[k]? = scripts[k]?) ->
      LoopAt scripts acts m
  | done {pc : PC} :
      mainPC m = some pc ->
      InPass pc ->
      launchedIn acts =
        (List.range scripts.length).filter (idleIn scripts) ->
      LoopAt scripts acts m

theorem idle_range_succ (scripts : List BurninScript) (j : Nat) :
    (List.range (j + 1)).filter (idleIn scripts) =
      (List.range j).filter (idleIn scripts) ++
        (if idleIn scripts j then [j] else []) := by
  rw [List.range_succ, List.filter_append]
  by_cases hidle : idleIn scripts j <;> simp [hidle]

theorem loopAt_visited {scripts : List BurninScript} {acts : List Action}
    {m m' : Memory} {label : MoveLabel} {j : Nat} {pc : PC}
    (hle : j ≤ scripts.length) (hslot : m.scripts[j]? = scripts[j]?)
    (hrest : forall k, j + 1 ≤ k -> m.scripts[k]? = scripts[k]?)
    (hmain : mainPC m' = some pc)
    (hmove : Move m.scripts label (.launch j) m'.scripts pc)
    (hacts : launchedIn acts =
      (List.range j).filter (idleIn scripts) ++ (slotOf label).toList) :
    LoopAt scripts acts m' := by
  generalize hscripts : m'.scripts = scripts' at hmove
  cases hmove with
  | launched ret hold hidle hret =>
      rw [hold] at hslot
      have hlt : j < scripts.length :=
        (List.getElem?_eq_some_iff.mp hslot.symm).choose
      have hj : idleIn scripts j = true := by
        simp [idleIn, ← hslot, hidle]
      refine LoopAt.launching (j + 1) hmain hlt ?_ ?_
      · rw [hacts, idle_range_succ, if_pos hj]
        rfl
      · intro k hk
        rw [hscripts, modify_other (by omega)]
        exact hrest k hk
  | skipped hold hbusy =>
      rw [hold] at hslot
      have hlt : j < scripts.length :=
        (List.getElem?_eq_some_iff.mp hslot.symm).choose
      have hj : ¬ idleIn scripts j = true := by
        simp [idleIn, ← hslot, hbusy]
      refine LoopAt.launching (j + 1) hmain hlt ?_ ?_
      · rw [hacts, idle_range_succ, if_neg hj]
        rfl
      · intro k hk
        rw [hscripts]
        exact hrest k hk
  | polling hold =>
      rw [hold] at hslot
      have hge : scripts.length ≤ j :=
        List.getElem?_eq_none_iff.mp hslot.symm
      have hj : j = scripts.length := Nat.le_antisymm hle hge
      refine LoopAt.done hmain trivial ?_
      rw [hacts, hj]
      exact List.append_nil _

theorem LoopAt.step {scripts : List BurninScript} {acts : List Action}
    {m m' : Memory} {a : Action} (h : LoopAt scripts acts m)
    (hstep : MainStep m a m') (hforeign : ¬ Foreign a) (ha : a ≠ .wake 0 0) :
    LoopAt scripts (acts ++ [a]) m' := by
  cases hstep with
  | other hmain hsame hlaunch hawake =>
      have hacts : launchedIn (acts ++ [a]) = launchedIn acts := by
        rw [launchedIn_snoc, hlaunch hforeign]
        simp
      cases h with
      | launching j hpc hle hdone hrest =>
          refine LoopAt.launching j (by rw [hmain, hpc]) hle (by rw [hacts, hdone]) ?_
          rw [hsame]
          exact hrest
      | done hpc hpass hdone =>
          exact LoopAt.done (by rw [hmain, hpc]) hpass (by rw [hacts, hdone])
  | move hmain hmain' hmove hlaunch hwake =>
      rename_i label pc pc'
      have hacts : launchedIn (acts ++ [a]) =
          launchedIn acts ++ (slotOf label).toList := by
        rw [launchedIn_snoc, hlaunch]
      cases h with
      | launching j hpc hle hdone hrest =>
          rw [hpc] at hmain
          cases hmain
          exact loopAt_visited hle (hrest j (Nat.le_refl j))
            (fun k hk => hrest k (by omega)) hmain' hmove (by rw [hacts, hdone])
      | done hpc hpass hdone =>
          rw [hpc] at hmain
          cases hmain
          have hawake : pc ≠ .sleep := fun hsleep => ha (hwake hsleep)
          rcases hmove.inPass hpass hawake with ⟨hpass', hnone⟩
          refine LoopAt.done hmain' hpass' ?_
          rw [hacts, hdone, hnone]
          exact List.append_nil _

theorem Good.launchesIdle {w : World} {v : View} (h : Good w v) :
    LaunchesIdle w := by
  intro m acts w' m' hmem hpc hrun hwake hmem' hpc'
  rw [h.view.mem_eq hmem] at hpc ⊢
  have hfirst : .wake 0 0 ∉ ([] : List Action) ->
      LoopAt v.mem.scripts [] v.mem := by
    intro _
    exact LoopAt.launching 0 hpc (Nat.zero_le _) rfl (fun k _ => rfl)
  have hkeep : forall acts a u v1 v2, Good u v1 ->
      (.wake 0 0 ∉ acts -> LoopAt v.mem.scripts acts v1.mem) ->
        RootStep v1 a v2 -> ¬ Foreign a -> ¬ ExecveFails a ->
          .wake 0 0 ∉ acts ++ [a] ->
            LoopAt v.mem.scripts (acts ++ [a]) v2.mem := by
    intro acts a u v1 v2 hgood1 hR hroot hforeign _hexec hnot
    rw [List.mem_append, not_or] at hnot
    apply (hR hnot.left).step (hroot.mainStep hgood1.control.threads) hforeign
    intro heq
    exact hnot.right (by simp [heq])
  rcases good_history h hfirst hkeep hrun with ⟨v', hgood', hloop⟩
  rw [hgood'.view.mem_eq hmem'] at hpc'
  cases hloop hwake with
  | launching j hlaunch _ _ _ =>
      rw [hpc'] at hlaunch
      cases hlaunch
  | done hpass _ hdone => exact hdone

/-!
# The discipline of the table
-/

theorem Good.runningInRange {w : World} {v : View} (h : Good w v) :
    RunningInRange w := by
  intro m i script hmem hscript
  rw [h.view.mem_eq hmem] at hscript
  exact h.control.range i script hscript

theorem reachable_discipline {w : World} (h : Reachable w) :
    AtMostOneChild w ∧ LaunchesIdle w ∧ RunningInRange w ∧
      DisabledIsFinal w := by
  rcases h.good with ⟨v, hgood⟩
  exact ⟨hgood.atMostOneChild, hgood.launchesIdle, hgood.runningInRange,
    hgood.disabledIsFinal⟩

def disabledRun : List Action :=
  oneScriptRun ++
    [.exit 2 (.exited 255), .fgets 0 0, .waitpid 0 0 (.reaped 2)]

theorem reachable_discipline_disabled :
    exists w, run (start 1 ["hpl".toList]) disabledRun = some w ∧
      AtMostOneChild w ∧ LaunchesIdle w ∧ RunningInRange w ∧
        DisabledIsFinal w :=
  ⟨_, rfl, reachable_discipline
    ⟨1, ["hpl".toList], disabledRun, rfl, by decide⟩⟩

end Scheduler
end Breakin
