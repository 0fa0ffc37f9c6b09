import Mathlib.Data.List.Infix
import Breakin.Scheduler.Accounting

/-!
# Slots that stay marked as running

A slot is left running at the end of a pass in two ways: its `waitpid` found no
exited child, or the loop skipped it because it has no stream.  The first is right
when the wait was for the slot's own child, the second never lasts.
-/

namespace Breakin
namespace Scheduler

open Foundation

def Process.childFor (i : Nat) (pr : Process) : Bool :=
  match pr.launched with
  | some l => decide (l.parent = 0 ∧ l.caller = .burnin i)
  | none => false

def visits : PC -> Option Nat
  | .poll i => some i
  | .drain i => some i
  | .reap i => some i
  | _ => none

/-- The poll pass is at script `i`, and a child of script `i` has not exited. -/
def visitedAlive (w : World) (i : Nat) : Bool :=
  match w.at? 0 0 with
  | some (_, pc) =>
      visits pc == some i &&
        w.procs.any fun pr => pr.childFor i && decide (pr.life = .alive)
  | none => false

/-- At the end of every pass of the run, a script marked running was visited in
that pass while a child of its own had not exited. -/
def NoSlotStuck (w : World) (acts : List Action) : Prop :=
  forall pre post u m (i : Nat) script, acts = pre ++ post ->
    run w pre = some u -> u.memory? 0 = some m -> mainPC m = some .sleep ->
      m.scripts[i]? = some script -> script.running = 1 ->
        exists before after u', pre = before ++ after ∧
          .wake 0 0 ∉ after ∧ run w before = some u' ∧
            visitedAlive u' i = true

/-- `fork_cmd` gives every script its stream, and a `waitpid` call with the -1 of
a failed `fork` finds no child at all. -/
def KeepsTrack (w : World) : Action -> Prop
  | .forkCmd p _ (.burnin _) out =>
      p = 0 -> out.fcntl = true ∧ out.fdopen = true
  | .waitpid p t _ =>
      match w.at? p t with
      | none => True
      | some (m, pc) =>
          p = 0 -> waitArg m pc = some (-1) ->
            forall pr, pr ∈ w.procs -> ¬ Selects p (-1) pr
  | _ => True

instance (w : World) : DecidablePred (KeepsTrack w)
  | .forkCmd p _ (.burnin _) out =>
      inferInstanceAs
        (Decidable (p = 0 -> out.fcntl = true ∧ out.fdopen = true))
  | .forkCmd _ _ (.helper _) _ => isTrue trivial
  | .waitpid p t _ =>
      match hplace : w.at? p t with
      | none => isTrue (by simp [KeepsTrack, hplace])
      | some (m, pc) =>
          have := List.decidableBAll (fun pr => ¬ Selects p (-1) pr) w.procs
          decidable_of_iff
            (p = 0 -> waitArg m pc = some (-1) ->
              forall pr, pr ∈ w.procs -> ¬ Selects p (-1) pr)
            (by simp only [KeepsTrack, hplace])
  | .forkTail .. | .visit .. | .fgets .. | .execve .. | .wake .. | .dumpLog
  | .write .. | .exit .. => isTrue trivial

def TracksView (v : View) : Action -> Prop
  | .forkCmd p _ (.burnin _) out =>
      p = 0 -> out.fcntl = true ∧ out.fdopen = true
  | .waitpid p t _ =>
      p = 0 -> forall pc, v.mem.threads[t]? = some pc ->
        waitArg v.mem pc = some (-1) -> forall q c, v.Has q c ->
          ¬ c.SelectedBy (-1)
  | _ => True

theorem KeepsTrack.view {w : World} {v : View} {a : Action}
    (h : KeepsTrack w a) (hview : ViewOf w v) : TracksView v a := by
  cases a with
  | forkCmd p t caller out =>
      cases caller with
      | helper x => trivial
      | burnin i => exact h
  | waitpid p t res =>
      intro hp pc hpc harg q c hc
      subst hp
      have hat : w.at? 0 t = some (v.mem, pc) :=
        at?_some_iff.mpr ⟨hview.memory, hpc⟩
      simp only [KeepsTrack, hat] at h
      rcases hview.has_iff.mp hc with ⟨pr, hproc, hcell⟩
      rw [← selects_iff hcell]
      exact h trivial harg pr (List.mem_of_getElem? hproc)
  | _ => trivial

theorem TracksView.reapsByPid {v v' : View} {a : Action} (h : TracksView v a)
    (hroot : RootStep v a v') : ReapsByPid v a := by
  intro t j pc ha hpc harg
  cases hroot with
  | foreign extra hf =>
      rw [ha] at hf
      exact hf rfl
  | waitReaped hpc' harg' hchild hselect hlife hwaited =>
      cases ha
      rw [hpc] at hpc'
      cases hpc'
      rw [harg] at harg'
      cases harg'
      exact h rfl pc hpc harg j _ hchild hselect
  | _ => cases ha

/-!
# Every running slot has a stream
-/

def Streamed (scripts : List BurninScript) : Prop :=
  forall (i : Nat) script, scripts[i]? = some script -> script.running = 1 ->
    exists fp, script.fpStdout = some fp

theorem RootStep.table {v v' : View} {a : Action} (h : RootStep v a v') :
    v'.mem.scripts = v.mem.scripts ∨
      (exists pc pc', Move v.mem.scripts none pc v'.mem.scripts pc') ∨
      exists t i pipe pid out, a = .forkCmd 0 t (.burnin i) out ∧
        v'.mem.scripts =
          v.mem.scripts.modify i (launchedSlot (forkReturn pipe pid out)) := by
  have hfork : forall {t : Nat} {pc : PC} {caller : Caller} (pid : Int)
      (out : ForkOutcome), callerAt v.mem pc = some caller ->
      a = .forkCmd 0 t caller out ->
      v'.mem = forkReturned (openPipe v.mem v.pipes.length caller) t
        v.pipes.length pid caller out ->
      v'.mem.scripts = v.mem.scripts ∨
        exists t i pipe pid out, a = .forkCmd 0 t (.burnin i) out ∧
          v'.mem.scripts =
            v.mem.scripts.modify i (launchedSlot (forkReturn pipe pid out)) := by
    intro t pc caller pid out hcaller ha hmem
    cases caller with
    | helper x =>
        rcases forkReturned_move hcaller t v.pipes.length pid out with
          ⟨pc', _, hmove⟩
        rw [← hmem] at hmove
        exact Or.inl hmove.helper_scripts
    | burnin i =>
        right
        refine ⟨t, i, v.pipes.length, pid, out, ha, ?_⟩
        rw [hmem, forkReturned_burnin_scripts, openPipe_scripts]
  rcases h.move with ⟨_, hsame⟩ | ⟨_, hsame, _⟩ |
    ⟨_, label, pc, pc', _, _, hmove, hlabel⟩
  · exact Or.inl hsame
  · exact Or.inl hsame
  · cases label with
    | none => exact Or.inr (Or.inl ⟨pc, pc', hmove⟩)
    | some entry =>
        rcases entry with ⟨caller, pipe, pid⟩
        rcases hlabel caller pipe pid rfl with ⟨_, _, t, out, ha⟩
        subst ha
        cases h with
        | foreign extra hf hnone hlen => exact absurd rfl hf
        | forkFailed hpc hcaller hchild =>
            rcases hfork _ _ hcaller rfl rfl with hsame | hlaunch
            · exact Or.inl hsame
            · exact Or.inr (Or.inr hlaunch)
        | forked hpc hcaller hchild hpos hfree =>
            rcases hfork _ _ hcaller rfl rfl with hsame | hlaunch
            · exact Or.inl hsame
            · exact Or.inr (Or.inr hlaunch)

theorem Move.streamed {scripts scripts' : List BurninScript} {pc pc' : PC}
    (h : Move scripts none pc scripts' pc') (hs : Streamed scripts) :
    Streamed scripts' := by
  intro i script' hscript' hrun
  cases h with
  | delivered data hold =>
      rcases modify_cases hscript' with ⟨old, hj, heq⟩
      rw [heq] at hrun ⊢
      split at hrun
      · rename_i hij
        rw [if_pos hij]
        exact hs i old hj hrun
      · rename_i hij
        rw [if_neg hij]
        exact hs i old hj hrun
  | classified res hold =>
      rcases modify_cases hscript' with ⟨old, hj, heq⟩
      rw [heq] at hrun ⊢
      split at hrun
      · rename_i hij
        have hres := classify_running hrun
        subst hres
        rw [if_pos hij]
        exact hs i old hj hrun
      · rename_i hij
        rw [if_neg hij]
        exact hs i old hj hrun
  | _ => exact hs i script' hscript' hrun

theorem RootStep.streamed {v v' : View} {a : Action} (h : RootStep v a v')
    (hs : Streamed v.mem.scripts) (htrack : TracksView v a) :
    Streamed v'.mem.scripts := by
  rcases h.table with hsame | ⟨pc, pc', hmove⟩ |
    ⟨t, i, pipe, pid, out, ha, hscripts⟩
  · rw [hsame]
    exact hs
  · exact hmove.streamed hs
  · rw [ha] at htrack
    rcases htrack rfl with ⟨hfcntl, hfdopen⟩
    intro j script' hscript' hrun
    rw [hscripts] at hscript'
    rcases modify_cases hscript' with ⟨old, hj, heq⟩
    rw [heq] at hrun ⊢
    split at hrun
    · rename_i hij
      rw [if_pos hij]
      exact ⟨pipe, by simp [launchedSlot, forkReturn, hfcntl, hfdopen]⟩
    · rename_i hij
      rw [if_neg hij]
      exact hs j old hj hrun

/-!
# A slot that stays running after its wait
-/

theorem RootStep.from_reap {v v' : View} {a : Action} (h : RootStep v a v')
    {i : Nat}
    (hreap : mainPC v.mem = some (.reap i))
    (hleft : mainPC v'.mem ≠ some (.reap i)) :
    exists res, a = .waitpid 0 0 res := by
  have hmain : forall {t : Nat} {pc pc' : PC},
      v.mem.threads[t]? = some pc ->
      v'.mem.threads = v.mem.threads.set t pc' -> t = 0 ∧ pc = .reap i := by
    intro t pc pc' hpc hthreads
    rcases mainPC_set hpc hthreads with ⟨ht, hsame, _⟩ | ⟨_, hsame⟩
    · rw [hreap] at hsame
      exact ⟨ht, (Option.some.inj hsame).symm⟩
    · exact absurd (hsame.trans hreap) hleft
  by_cases hcalls : Calls a
  · cases h with
    | foreign extra hf => exact absurd hf hcalls.not_foreign
    | forkFailed hpc hcaller hchild =>
        rcases forkReturned_move hcaller _ _ _ _ with ⟨pc', hthreads, _⟩
        rw [(hmain hpc hthreads).right] at hcaller
        cases hcaller
    | forked hpc hcaller hchild hpos hfree =>
        rcases forkReturned_move hcaller _ _ _ _ with ⟨pc', hthreads, _⟩
        rw [(hmain hpc hthreads).right] at hcaller
        cases hcaller
    | waitError hpc harg hnone hwaited =>
        rcases waited_move hwaited with ⟨pc', hthreads, _⟩
        exact ⟨_, by rw [(hmain hpc hthreads).left]⟩
    | waitNochange hpc harg hsome hnone hwaited =>
        rcases waited_move hwaited with ⟨pc', hthreads, _⟩
        exact ⟨_, by rw [(hmain hpc hthreads).left]⟩
    | waitReaped hpc harg hchild hselect hlife hwaited =>
        rcases waited_move hwaited with ⟨pc', hthreads, _⟩
        exact ⟨_, by rw [(hmain hpc hthreads).left]⟩
    | _ => exact hcalls.elim
  · cases h.quiet hcalls with
    | idle hmem =>
        rw [hmem] at hleft
        exact absurd hreap hleft
    | dumpLog ha hscripts hset =>
        have hpos : 0 < v.mem.threads.length :=
          (List.getElem?_eq_some_iff.mp hreap).choose
        unfold mainPC at hleft
        rw [hset, List.getElem?_append_left hpos] at hleft
        exact absurd hreap hleft
    | move hforeign hpc hset hmove hfds hnot =>
        exact absurd (hmain hpc hset).right (hnot i)

/-- A slot that is still running after its wait has a child that is alive. -/
theorem RootStep.stays_running {v v' : View} {res : WaitResult}
    (h : RootStep v (.waitpid 0 0 res) v') (hatt : Attended v)
    (hcontrol : Control v.mem) (htrack : TracksView v (.waitpid 0 0 res))
    {i : Nat} (hreap : mainPC v.mem = some (.reap i)) {script' : BurninScript}
    (hscript' : v'.mem.scripts[i]? = some script')
    (hrun : script'.running = 1) :
    exists q c, v.Has q c ∧ c.caller = .burnin i ∧ c.life = .alive := by
  have hclassified : forall {m : Memory} {out : WaitOutcome},
      waited v.mem 0 out (.reap i) = some m ->
      m.scripts[i]? = some script' -> out = .nochange := by
    intro m out hwaited hslot
    rw [waited_reap hwaited] at hslot
    rcases modify_cases hslot with ⟨old, _, heq⟩
    rw [if_pos rfl] at heq
    rw [heq] at hrun
    exact classify_running hrun
  cases h with
  | foreign extra hf => exact absurd rfl hf
  | waitError hpc harg hnone hwaited =>
      have hpc' := Option.some.inj (hpc.symm.trans hreap)
      rw [hpc'] at hwaited
      cases hclassified hwaited hscript'
  | waitReaped hpc harg hchild hselect hlife hwaited =>
      have hpc' := Option.some.inj (hpc.symm.trans hreap)
      rw [hpc'] at hwaited
      cases hclassified hwaited hscript'
  | waitNochange hpc harg hsome hnone hwaited =>
      rename_i pc pid m
      have hpc' : pc = .reap i := Option.some.inj (hpc.symm.trans hreap)
      subst hpc'
      have hpid : pid ≠ -1 := by
        intro hneg
        subst hneg
        rcases hsome with ⟨q, c, hc, hsel⟩
        exact htrack rfl _ hpc harg q c hc hsel
      rcases hatt.waiter hcontrol hpc harg hpid with
        ⟨caller, hwaiter, q, c, hc, hun, hcaller, heq⟩
      cases hwaiter
      have hsel : c.SelectedBy pid := ⟨hun, Or.inr (Or.inr heq)⟩
      exact ⟨q, c, hc, hcaller, Child.alive_of_unreaped hun (hnone q c hc hsel)⟩

/-!
# The passes of a run
-/

def VisitedIn : PC -> Nat -> Prop
  | .poll j, i => i < j
  | .drain j, i => i < j
  | .reap j, i => i < j
  | .sleep, _ => True
  | _, _ => False

def SeenAlive (w : World) (acts : List Action) (i : Nat) : Prop :=
  exists before after u, acts = before ++ after ∧ .wake 0 0 ∉ after ∧
    run w before = some u ∧ visitedAlive u i = true

theorem SeenAlive.snoc {w : World} {acts : List Action} {i : Nat} {a : Action}
    (h : SeenAlive w acts i) (ha : a ≠ .wake 0 0) :
    SeenAlive w (acts ++ [a]) i := by
  rcases h with ⟨before, after, u, hacts, hwake, hrun, halive⟩
  refine ⟨before, after ++ [a], u, by simp [hacts], ?_, hrun, halive⟩
  rw [List.mem_append, not_or, List.mem_singleton]
  exact ⟨hwake, fun heq => ha heq.symm⟩

def PassSeen (w : World) (acts : List Action) (m : Memory) : Prop :=
  forall pc (i : Nat) script, mainPC m = some pc ->
    m.scripts[i]? = some script -> script.running = 1 -> VisitedIn pc i ->
      SeenAlive w acts i

theorem ViewOf.visitedAlive {w : World} {v : View} (h : ViewOf w v) {i q : Nat}
    {c : Child} {pc : PC} (hpc : mainPC v.mem = some pc)
    (hvisit : visits pc = some i) (hc : v.Has q c)
    (hcaller : c.caller = .burnin i) (hlife : c.life = .alive) :
    visitedAlive w i = true := by
  have hat : w.at? 0 0 = some (v.mem, pc) := at?_some_iff.mpr ⟨h.memory, hpc⟩
  rcases h.has_iff.mp hc with ⟨pr, hproc, hcell⟩
  rcases childOf_some_iff.mp hcell with ⟨hlaunched, _, hlife'⟩
  unfold Scheduler.visitedAlive
  simp only [hat, hvisit, beq_self_eq_true, Bool.true_and, List.any_eq_true]
  refine ⟨pr, List.mem_of_getElem? hproc, ?_⟩
  simp [Process.childFor, hlaunched, hcaller, hlife', hlife]

theorem Move.visited {scripts scripts' : List BurninScript} {label : MoveLabel}
    {pc pc' : PC} (h : Move scripts label pc scripts' pc')
    (hs : Streamed scripts) {i : Nat} {script' : BurninScript}
    (hscript' : scripts'[i]? = some script') (hrun : script'.running = 1)
    (hvisited : VisitedIn pc' i) :
    (VisitedIn pc i ∧ pc ≠ .sleep ∧
      exists script, scripts[i]? = some script ∧ script.running = 1) ∨
      (pc = .reap i ∧ pc' = .poll (i + 1)) := by
  cases h with
  | launched ret hold hidle hret => cases hvisited
  | follow => cases hvisited
  | unfollowed hplace =>
      rcases hplace with heq | ⟨_, heq⟩ <;> (rw [heq] at hvisited; cases hvisited)
  | skipped hold hbusy => cases hvisited
  | helper hfollow => cases hvisited
  | burnin => cases hvisited
  | woken => cases hvisited
  | polling hnone => exact absurd hvisited (Nat.not_lt_zero i)
  | asleep hnone =>
      rename_i j
      left
      have hlt : i < scripts.length :=
        (List.getElem?_eq_some_iff.mp hscript').choose
      have hle : scripts.length ≤ j := List.getElem?_eq_none_iff.mp hnone
      refine ⟨Nat.lt_of_lt_of_le hlt hle, ?_, script', hscript', hrun⟩
      intro heq
      cases heq
  | passed hold hskip =>
      rename_i j old
      left
      have hlt : i < j := by
        apply Nat.lt_of_le_of_ne (Nat.le_of_lt_succ hvisited)
        intro heq
        rw [heq, hold] at hscript'
        cases hscript'
        rcases hskip with hstopped | hnone
        · omega
        · rcases hs j _ hold hrun with ⟨fp, hfp⟩
          rw [hnone] at hfp
          cases hfp
      refine ⟨hlt, ?_, script', hscript', hrun⟩
      intro heq
      cases heq
  | draining hold hpos hfp =>
      left
      refine ⟨hvisited, ?_, script', hscript', hrun⟩
      intro heq
      cases heq
  | dry =>
      left
      refine ⟨hvisited, ?_, script', hscript', hrun⟩
      intro heq
      cases heq
  | delivered data hold =>
      rename_i j old
      left
      have hne : j ≠ i := Nat.ne_of_gt hvisited
      rcases modify_cases hscript' with ⟨s, hslot, heq⟩
      rw [if_neg hne] at heq
      rw [heq] at hrun
      refine ⟨hvisited, ?_, s, hslot, hrun⟩
      intro hpc
      cases hpc
  | classified res hold =>
      rename_i j old
      by_cases hij : j = i
      · right
        rw [hij]
        exact ⟨rfl, rfl⟩
      · left
        rcases modify_cases hscript' with ⟨s, hslot, heq⟩
        rw [if_neg hij] at heq
        rw [heq] at hrun
        have hlt : i < j := Nat.lt_of_le_of_ne (Nat.le_of_lt_succ hvisited)
          (Ne.symm hij)
        refine ⟨hlt, ?_, s, hslot, hrun⟩
        intro hpc
        cases hpc

theorem RootStep.wakes {v v' : View} {pc : PC}
    (h : RootStep v (.wake 0 0) v') (hpc : mainPC v.mem = some pc) :
    pc = .sleep := by
  cases h with
  | foreign extra hf => exact absurd rfl hf
  | wake hsleep => exact Option.some.inj (hpc.symm.trans hsleep)

/-- What a run whose steps keep track of their children knows at its end. -/
structure Tracked (w0 : World) (acts : List Action) (w : World) (v : View) :
    Prop where
  view : ViewOf w v
  control : Control v.mem
  owned : Owned v
  attended : Attended v
  streamed : Streamed v.mem.scripts
  seen : PassSeen w0 acts v.mem

theorem tracked_start (pid : Nat) (tests : List CString) :
    Tracked (start pid tests) [] (start pid tests) (startView tests) where
  view := viewOf_start pid tests
  control := control_start tests
  owned := owned_start tests
  attended := attended_start tests
  streamed := by
    intro i script hscript hrun
    simp only [startView, List.getElem?_map, Option.map_eq_some_iff] at hscript
    rcases hscript with ⟨name, _hname, heq⟩
    rw [← heq] at hrun
    cases hrun
  seen := by
    intro pc i script hpc hscript hrun hvisited
    cases hpc
    cases hvisited

theorem Tracked.step {w0 w w' : World} {acts : List Action} {v v' : View}
    {a : Action} (h : Tracked w0 acts w v) (hrun0 : run w0 acts = some w)
    (hview' : ViewOf w' v') (hroot : RootStep v a v')
    (htrack : TracksView v a) : Tracked w0 (acts ++ [a]) w' v' where
  view := hview'
  control := hroot.control h.control
  owned := hroot.keeps_owned h.control h.owned
  attended := hroot.attended h.attended h.owned.kernel h.control
    (htrack.reapsByPid hroot)
  streamed := hroot.streamed h.streamed htrack
  seen := by
    intro pc' i script' hpc' hscript' hrun hvisited
    cases hroot.mainStep h.control.threads with
    | other hmain hsame hlaunch hawake =>
        rw [hmain] at hpc'
        rw [hsame] at hscript'
        exact (h.seen pc' i script' hpc' hscript' hrun hvisited).snoc hawake
    | move hmain hmain' hmove hlaunch hwake =>
        rename_i label pc pc1
        rw [hmain'] at hpc'
        cases hpc'
        rcases hmove.visited h.streamed hscript' hrun hvisited with
          ⟨hold, hawake, script, hscript, hrun1⟩ | ⟨hreap, hpoll⟩
        · apply (h.seen pc i script hmain hscript hrun1 hold).snoc
          intro ha
          -- a wake takes the main thread out of its sleep
          rw [ha] at hroot
          exact hawake (hroot.wakes hmain)
        · rw [hreap] at hmain
          rw [hpoll] at hmain'
          rcases hroot.from_reap hmain (by rw [hmain']; intro heq; cases heq)
            with ⟨res, ha⟩
          subst ha
          rcases hroot.stays_running h.attended h.control htrack hmain hscript'
            hrun with ⟨q, c, hc, hcaller, hlife⟩
          refine ⟨acts, [.waitpid 0 0 res], w, rfl, ?_, hrun0,
            h.view.visitedAlive hmain rfl hc hcaller hlife⟩
          intro hmem
          cases List.mem_singleton.mp hmem

theorem noSlotStuck_run {pid : Nat} {tests : List CString} {acts : List Action}
    (htrack : StepsMeet step (start pid tests) acts KeepsTrack) :
    NoSlotStuck (start pid tests) acts := by
  intro pre post u m i script hacts hrun hmem hsleep hscript hrunning
  rw [hacts] at htrack
  have htracked : StepsMeet step (start pid tests) pre KeepsTrack ->
      exists v, Tracked (start pid tests) pre u v := by
    refine runFrom_history (R := fun acts w =>
      StepsMeet step (start pid tests) acts KeepsTrack ->
        exists v, Tracked (start pid tests) acts w v) ?_ ?_ hrun
    · intro _
      exact ⟨_, tracked_start pid tests⟩
    · intro acts a t t' hrun0 ih hstep hmeet
      rcases ih hmeet.of_append with ⟨v, hv⟩
      rcases rootStep_of_step hv.view hv.control.threads hstep with
        ⟨v', hview', hroot⟩
      exact ⟨v', hv.step hrun0 hview' hroot
        ((hmeet.last hrun0).view hv.view)⟩
  rcases htracked htrack.of_append with ⟨v, hv⟩
  rw [hv.view.mem_eq hmem] at hsleep hscript
  exact hv.seen .sleep i script hsleep hscript hrunning trivial

def stillRunningRun : List Action :=
  hardwareSetup ++
    [launchOk 0 3, .execve 2 true, .visit 0 0, .visit 0 0, .fgets 0 0,
      .waitpid 0 0 .nochange, .visit 0 0]

theorem noSlotStuck_stillRunning :
    NoSlotStuck (start 1 ["hpl".toList]) stillRunningRun :=
  noSlotStuck_run (stepsMeet_of_check (by decide))

/-- `fdopen` fails for script 0, and its child exits before the pass. -/
def lostStreamRun : List Action :=
  hardwareSetup ++
    [.forkCmd 0 0 (.burnin 0)
        { child := some 3, fcntl := true, fdopen := false },
      .execve 2 true, .exit 2 (.exited 0), .visit 0 0, .visit 0 0,
      .visit 0 0]

theorem lostStream_slotStuck :
    exists w m, run (start 1 ["hpl".toList]) lostStreamRun = some w ∧
      w.memory? 0 = some m ∧ mainPC m = some .sleep ∧
        m.scripts.map BurninScript.running = [1] ∧
          ¬ NoSlotStuck (start 1 ["hpl".toList]) lostStreamRun := by
  refine ⟨_, _, rfl, rfl, rfl, rfl, ?_⟩
  intro hstuck
  rcases hstuck lostStreamRun [] _ _ 0 _ (List.append_nil _).symm rfl rfl rfl
    rfl rfl with ⟨before, after, u, hsplit, _, hrun, halive⟩
  have hnever : forall pre, pre ∈ lostStreamRun.inits ->
      ((run (start 1 ["hpl".toList]) pre).any fun w => visitedAlive w 0) =
        false := by
    decide
  have hbefore := hnever before ((List.mem_inits before _).mpr ⟨after, hsplit.symm⟩)
  rw [hrun, Option.any_some, halive] at hbefore
  cases hbefore

end Scheduler
end Breakin
