import Breakin.Scheduler.Accounting

/-!
# The output of a child

A pipe is closed by the step that ends a wait, after a drain loop that ended some
steps before.  What the child writes in between stays in the pipe, so nothing is
lost exactly when the pipe is empty at each of those steps.
-/

namespace Breakin
namespace Scheduler

open Foundation

/-- The stream that a `waitpid` with this result makes its caller close. -/
def closing (m : Memory) (res : WaitResult) : PC -> Option Nat
  | .reap i =>
      match res with
      | .reaped _ =>
          match m.scripts[i]? with
          | some script => script.fpStdout
          | none => none
      | _ => none
  | .helper _ (.reap _ fp) =>
      match res with
      | .nochange => none
      | _ => some fp
  | _ => none

def closingAt (w : World) : Action -> Option Nat
  | .waitpid p t res =>
      match w.at? p t with
      | some (m, pc) => closing m res pc
      | none => none
  | _ => none

def World.Dry (w : World) (k : Nat) : Prop :=
  match w.pipes[k]? with
  | some pipe => pipe.unread = []
  | none => True

/-- A step that closes a stream finds nothing unread in its pipe. -/
def ClosesDry (w : World) (a : Action) : Prop :=
  match closingAt w a with
  | some fp => w.Dry fp
  | none => True

/-- What was written to a pipe the process has closed was read from it, byte for
byte and in order. -/
def OutputRead (w : World) : Prop :=
  forall m (k : Nat) pipe, w.memory? 0 = some m -> w.pipes[k]? = some pipe ->
    .readEnd k ∉ m.fds -> pipe.reads.flatten = pipe.written

instance (w : World) (k : Nat) : Decidable (w.Dry k) := by
  unfold World.Dry
  cases w.pipes[k]? with
  | none => exact isTrue trivial
  | some pipe => exact inferInstanceAs (Decidable (_ = _))

instance (w : World) (a : Action) : Decidable (ClosesDry w a) := by
  unfold ClosesDry
  cases closingAt w a with
  | none => exact isTrue trivial
  | some fp => exact inferInstanceAs (Decidable (w.Dry fp))

/-!
# What a step does to the descriptors
-/

theorem helperDone_fds (m : Memory) (t : Nat) (x : Helper) :
    (helperDone m t x).fds = m.fds := by
  cases x <;> rfl

/-- The descriptors after `fork_cmd` opened pipe `n`, with its write end closed
or, past the early return, open. -/
def OpenedFds (fds : List Fd) (n : Nat) (fds' : List Fd) : Prop :=
  fds' = (fds ++ [Fd.readEnd n, Fd.writeEnd n]).erase (.writeEnd n) ∨
    fds' = fds ++ [.readEnd n, .writeEnd n]

section Opened

variable {fds fds' : List Fd} {n : Nat}

theorem OpenedFds.mem (h : OpenedFds fds n fds') {f : Fd} (hf : f ∈ fds') :
    f ∈ fds ∨ f = .readEnd n ∨ f = .writeEnd n := by
  have hopened : f ∈ fds ++ [.readEnd n, .writeEnd n] := by
    rcases h with heq | heq
    · rw [heq] at hf
      exact List.mem_of_mem_erase hf
    · rw [← heq]
      exact hf
  simpa using hopened

theorem OpenedFds.readEnd_mem (h : OpenedFds fds n fds') {k : Nat}
    (hk : .readEnd k ∈ fds ∨ k = n) : .readEnd k ∈ fds' := by
  have hopened : Fd.readEnd k ∈ fds ++ [.readEnd n, .writeEnd n] := by
    simpa using hk
  rcases h with heq | heq
  · rw [heq]
    exact (List.mem_erase_of_ne (fun hne => by cases hne)).mpr hopened
  · rw [heq]
    exact hopened

theorem OpenedFds.nodup (h : OpenedFds fds n fds') (hnodup : fds.Nodup)
    (hread : .readEnd n ∉ fds) (hwrite : .writeEnd n ∉ fds) : fds'.Nodup := by
  have hopened : (fds ++ [Fd.readEnd n, Fd.writeEnd n]).Nodup := by
    apply List.nodup_append.mpr
    refine ⟨hnodup, by simp, ?_⟩
    intro f hf g hg heq
    rw [heq] at hf
    rcases List.mem_cons.mp hg with hg | hg
    · rw [hg] at hf
      exact hread hf
    · rw [List.mem_singleton.mp hg] at hf
      exact hwrite hf
  rcases h with heq | heq
  · rw [heq]
    exact hopened.erase _
  · rw [heq]
    exact hopened

end Opened

theorem forkReturned_fds (m : Memory) (caller : Caller) (t pipe : Nat)
    (pid : Int) (out : ForkOutcome) :
    OpenedFds m.fds pipe
      (forkReturned (openPipe m pipe caller) t pipe pid caller out).fds := by
  have htail : OpenedFds m.fds pipe
      (forkTail (openPipe m pipe caller) pipe pid out).1.fds := by
    unfold forkTail
    split
    · exact Or.inl rfl
    · exact Or.inr rfl
  have hreturn :
      (forkReturned (openPipe m pipe caller) t pipe pid caller out).fds =
        (forkTail (openPipe m pipe caller) pipe pid out).1.fds := by
    unfold forkReturned returnTo
    cases caller with
    | burnin i => rfl
    | helper x =>
        simp only
        split
        · exact helperDone_fds _ _ _
        · rfl
  rw [hreturn]
  exact htail

/-- The memory after a wait, with the result `waitpid` gave and the status it
stored. -/
inductive Outcomes : WaitResult -> WaitOutcome -> Prop where
  | error : Outcomes .error .error
  | nochange : Outcomes .nochange .nochange
  | reaped (j : Nat) (st : WaitStatus) : Outcomes (.reaped j) (.status st)

theorem waited_fds {m m' : Memory} {t : Nat} {pc : PC} {res : WaitResult}
    {out : WaitOutcome} (hout : Outcomes res out)
    (h : waited m t out pc = some m') :
    m'.fds =
      match closing m res pc with
      | some fp => m.fds.erase (Fd.readEnd fp)
      | none => m.fds := by
  unfold waited at h
  split at h
  · rename_i i
    split at h
    · rename_i script hscript
      split at h
      · rename_i fp hfp
        cases h
        cases hout <;> simp [closing, hscript, hfp, pollWaited]
      · cases h
    · cases h
  · rename_i x pid fp
    cases h
    cases hout <;> simp [closing, helperWaited, helperDone_fds]
  · cases h

/-!
# Descriptors, pipes and children along a step
-/

def closingView (v : View) : Action -> Option Nat
  | .waitpid _ t res =>
      match v.mem.threads[t]? with
      | some pc => closing v.mem res pc
      | none => none
  | _ => none

theorem ViewOf.closingAt {w : World} {v : View} {a : Action} (h : ViewOf w v)
    (hforeign : ¬ Foreign a) : closingAt w a = closingView v a := by
  cases a with
  | waitpid p t res =>
      have hp : p = 0 := Classical.not_not.mp hforeign
      subst hp
      unfold Scheduler.closingAt closingView World.at?
      simp only [h.memory]
      cases v.mem.threads[t]? <;> rfl
  | _ => rfl

inductive FdStep (v : View) (a : Action) (v' : View) : Prop where
  | same :
      v'.mem.fds = v.mem.fds ->
      v'.pipes.length = v.pipes.length ->
      closingView v a = none ->
      FdStep v a v'
  | opened :
      v'.pipes.length = v.pipes.length + 1 ->
      OpenedFds v.mem.fds v.pipes.length v'.mem.fds ->
      closingView v a = none ->
      FdStep v a v'
  | closed (fp : Nat) :
      v'.mem.fds = v.mem.fds.erase (Fd.readEnd fp) ->
      v'.pipes = v.pipes ->
      closingView v a = some fp ->
      FdStep v a v'

theorem fdStep_of_waited {v v' : View} {t : Nat} {pc : PC} {res : WaitResult}
    {out : WaitOutcome} {m : Memory} (hpc : v.mem.threads[t]? = some pc)
    (hout : Outcomes res out) (hwaited : waited v.mem t out pc = some m)
    (hmem : v'.mem = m) (hpipes : v'.pipes = v.pipes) :
    FdStep v (.waitpid 0 t res) v' := by
  have hfds := waited_fds hout hwaited
  rw [← hmem] at hfds
  have hview : closingView v (.waitpid 0 t res) = closing v.mem res pc := by
    simp [closingView, hpc]
  cases hclosing : closing v.mem res pc with
  | none =>
      rw [hclosing] at hfds hview
      exact FdStep.same hfds (by rw [hpipes]) hview
  | some fp =>
      rw [hclosing] at hfds hview
      exact FdStep.closed fp hfds hpipes hview

theorem RootStep.fdStep {v v' : View} {a : Action} (h : RootStep v a v')
    (hforeign : ¬ Foreign a) : FdStep v a v' := by
  cases h with
  | foreign extra hf => exact absurd hf hforeign
  | execve hp => exact FdStep.same rfl rfl rfl
  | write out hout => exact FdStep.same rfl (by simp) rfl
  | exit halive => exact FdStep.same rfl rfl rfl
  | dumpLog => exact FdStep.same rfl rfl rfl
  | forkFailed hpc hcaller hchild =>
      exact FdStep.opened (by simp) (forkReturned_fds _ _ _ _ _ _) rfl
  | forked hpc hcaller hchild hpos hfree =>
      exact FdStep.opened (by simp) (forkReturned_fds _ _ _ _ _ _) rfl
  | launch hpc hvisit => exact FdStep.same (launchVisit_fds hvisit) rfl rfl
  | poll hpc => exact FdStep.same (pollVisit_fds _ _ _) rfl rfl
  | drained hpc hfp hpipe hempty hdrained =>
      exact FdStep.same (drained_fds hdrained) rfl rfl
  | line hpc hfp hpipe hline hdrained =>
      exact FdStep.same (drained_fds hdrained) (by simp) rfl
  | wake hpc => exact FdStep.same rfl rfl rfl
  | waitError hpc harg hnone hwaited =>
      exact fdStep_of_waited hpc Outcomes.error hwaited rfl rfl
  | waitNochange hpc harg hsome hnone hwaited =>
      exact fdStep_of_waited hpc Outcomes.nochange hwaited rfl rfl
  | waitReaped hpc harg hchild hselect hlife hwaited =>
      exact fdStep_of_waited hpc (Outcomes.reaped _ _) hwaited rfl rfl

/-- Where a pipe comes from: it was there, the step wrote to it or took a line
from it, or `fork_cmd` opened it. -/
theorem RootStep.pipe_back {v v' : View} {a : Action} (h : RootStep v a v')
    (hforeign : ¬ Foreign a) {k : Nat} {pipe' : Pipe}
    (hpipe' : v'.pipes[k]? = some pipe') :
    v.pipes[k]? = some pipe' ∨
      (v'.mem.fds = v.mem.fds ∧ exists p, p ≠ 0 ∧ p < v.children.length ∧
        forall c, v.Has p c -> c.life = .alive ∧ c.out = k) ∨
      (v'.mem.fds = v.mem.fds ∧ exists pipe data, v.pipes[k]? = some pipe ∧
        pipe.fgets BUFSIZ = some (data, pipe')) ∨
      k = v.pipes.length := by
  have hfresh : (v.pipes ++ [Pipe.empty])[k]? = some pipe' ->
      v.pipes[k]? = some pipe' ∨ k = v.pipes.length := by
    intro hk
    rw [List.getElem?_append] at hk
    split at hk
    · exact Or.inl hk
    · rename_i hge
      rw [List.getElem?_singleton] at hk
      split at hk
      · exact Or.inr (by omega)
      · cases hk
  cases h with
  | foreign extra hf => exact absurd hf hforeign
  | write out hout =>
      rename_i p bytes
      rw [List.getElem?_modify] at hpipe'
      rcases Option.map_eq_some_iff.mp hpipe' with ⟨pipe, hold, heq⟩
      by_cases hk : out = k
      · rw [← hk]
        exact Or.inr (Or.inl ⟨rfl, p, hout⟩)
      · rw [if_neg hk] at heq
        rw [← heq]
        exact Or.inl hold
  | line hpc hfp hpipe hline hdrained =>
      rename_i t fp pc pipe pipe1 data m
      rw [List.getElem?_set] at hpipe'
      by_cases hk : fp = k
      · rw [if_pos hk] at hpipe'
        split at hpipe'
        · cases hpipe'
          rw [← hk]
          exact Or.inr (Or.inr (Or.inl
            ⟨drained_fds hdrained, pipe, data, hpipe, hline⟩))
        · cases hpipe'
      · rw [if_neg hk] at hpipe'
        exact Or.inl hpipe'
  | forkFailed hpc hcaller hchild =>
      rcases hfresh hpipe' with hold | hnew
      · exact Or.inl hold
      · exact Or.inr (Or.inr (Or.inr hnew))
  | forked hpc hcaller hchild hpos hfree =>
      rcases hfresh hpipe' with hold | hnew
      · exact Or.inl hold
      · exact Or.inr (Or.inr (Or.inr hnew))
  | _ => exact Or.inl hpipe'

/-!
# Nobody writes to a closed pipe
-/

/-- The descriptors name pipes that exist, each end once, and a pipe the process
has closed has no writer left. -/
structure Outputs (v : View) : Prop where
  nodup : v.mem.fds.Nodup
  opened : forall k, Fd.readEnd k ∈ v.mem.fds ∨ Fd.writeEnd k ∈ v.mem.fds ->
    k < v.pipes.length
  quiet : forall k q c, k < v.pipes.length -> Fd.readEnd k ∉ v.mem.fds ->
    v.Has q c -> c.out = k -> ¬ c.Unreaped

theorem outputs_start (tests : List CString) : Outputs (startView tests) where
  nodup := List.nodup_nil
  opened := by
    intro k hopen
    rcases hopen with hread | hwrite
    · cases hread
    · cases hwrite
  quiet := by
    intro k q c hk
    cases hk

/-- The wait that closes a stream leaves no child that could write to it. -/
theorem RootStep.closed_quiet {v v' : View} {a : Action} (h : RootStep v a v')
    (hcontrol : Control v.mem) (howned : Owned v) (hforeign : ¬ Foreign a)
    {fp : Nat} (hclosing : closingView v a = some fp) :
    fp < v.pipes.length ∧
      forall q c, v'.Has q c -> c.out = fp -> ¬ c.Unreaped := by
  cases h with
  | foreign extra hf => exact absurd hf hforeign
  | waitNochange hpc harg hsome hnone hwaited =>
      rename_i t pc pid m
      simp only [closingView, hpc] at hclosing
      rcases waitArg_cases harg with ⟨i, heq⟩ | ⟨x, k, heq⟩ <;>
        (rw [heq] at hclosing; cases hclosing)
  | waitError hpc harg hnone hwaited =>
      rename_i t pc pid m
      simp only [closingView, hpc] at hclosing
      rcases waitArg_cases harg with ⟨i, heq⟩ | ⟨x, k, heq⟩
      · rw [heq] at hclosing
        cases hclosing
      · rw [heq] at hclosing hpc
        cases hclosing
        rcases howned.slots.helper x pid fp ⟨t, _, hpc, Or.inr rfl⟩ with
          ⟨hlt, hchild⟩
        refine ⟨hlt, ?_⟩
        intro q c hc hout hun
        have hpid := (hchild q c hc hout).right
        exact hnone q c hc ⟨hun, Or.inr (Or.inr hpid)⟩
  | waitReaped hpc harg hchild hselect hlife hwaited =>
      rename_i t j pc pid c0 st m
      simp only [closingView, hpc] at hclosing
      have hown : fp < v.pipes.length ∧
          forall q c, v.Has q c -> c.out = fp -> (c.pid : Int) = pid := by
        rcases waitArg_cases harg with ⟨i, heq⟩ | ⟨x, k, heq⟩
        · rw [heq] at hclosing harg hpc
          rcases hcontrol.reaping hpc harg with
            ⟨script, fp', hscript, _, hfp, hpid⟩
          simp only [closing, hscript] at hclosing
          rcases howned.slots.stream i script fp hscript hclosing with
            ⟨hlt, hall⟩
          rw [← hpid]
          exact ⟨hlt, fun q c hc hout => (hall q c hc hout).right⟩
        · rw [heq] at hclosing hpc
          cases hclosing
          rcases howned.slots.helper x pid fp ⟨t, _, hpc, Or.inr rfl⟩ with
            ⟨hlt, hall⟩
          exact ⟨hlt, fun q c hc hout => (hall q c hc hout).right⟩
      refine ⟨hown.left, ?_⟩
      intro q c' hc' hout hun
      rcases has_setLife rfl hc' with ⟨c, hc, heq⟩
      by_cases hq : j = q
      · rw [if_pos hq] at heq
        rw [heq] at hun
        exact Child.not_unreaped_of_reaped rfl hun
      · rw [if_neg hq] at heq
        rw [heq] at hun hout
        exact hq (Child.selectedBy_own howned.kernel hc hun
          (hown.right q c hc hout) hchild hselect)
  | _ => cases hclosing

theorem Outputs.step {v v' : View} {a : Action} (h : Outputs v)
    (hroot : RootStep v a v') (hcontrol : Control v.mem) (howned : Owned v)
    (hforeign : ¬ Foreign a) : Outputs v' := by
  have hquiet : forall k q c', k < v.pipes.length ->
      Fd.readEnd k ∉ v.mem.fds -> v'.Has q c' -> c'.out = k ->
        ¬ c'.Unreaped := by
    intro k q c' hk hclosed hc' hout hun
    rcases hroot.children.right with hnew | hold
    · rcases hnew with ⟨pid, caller, hchildren, _⟩
      rcases has_newChild hchildren hc' with hc | ⟨_, heq⟩
      · exact h.quiet k q c' hk hclosed hc hout hun
      · rw [heq] at hout
        exact absurd hout (Nat.ne_of_gt hk)
    · rcases hold q c' hc' with ⟨c, hc, holder⟩
      exact h.quiet k q c hk hclosed hc (holder.out ▸ hout)
        (holder.unreaped hun)
  cases hroot.fdStep hforeign with
  | same hfds hlen hclosing =>
      constructor
      · rw [hfds]
        exact h.nodup
      · rw [hfds, hlen]
        exact h.opened
      · rw [hfds, hlen]
        exact fun k q c hk hclosed => hquiet k q c hk hclosed
  | closed fp hfds hpipes hclosing =>
      constructor
      · rw [hfds]
        exact h.nodup.erase _
      · intro k hopen
        rw [hpipes]
        rw [hfds] at hopen
        rcases hopen with hread | hwrite
        · exact h.opened k (Or.inl (List.mem_of_mem_erase hread))
        · exact h.opened k (Or.inr (List.mem_of_mem_erase hwrite))
      · intro k q c hk hclosed hc hout
        rw [hpipes] at hk
        by_cases hkfp : k = fp
        · rw [hkfp] at hout
          exact (hroot.closed_quiet hcontrol howned hforeign hclosing).right q c
            hc hout
        · apply hquiet k q c hk _ hc hout
          rw [hfds, h.nodup.mem_erase_iff, not_and] at hclosed
          apply hclosed
          intro heq
          cases heq
          exact hkfp rfl
  | opened hlen hfds hclosing =>
      have hread : Fd.readEnd v.pipes.length ∉ v.mem.fds :=
        fun hf => absurd (h.opened _ (Or.inl hf)) (Nat.lt_irrefl _)
      have hwrite : Fd.writeEnd v.pipes.length ∉ v.mem.fds :=
        fun hf => absurd (h.opened _ (Or.inr hf)) (Nat.lt_irrefl _)
      constructor
      · exact hfds.nodup h.nodup hread hwrite
      · intro k hopen
        rw [hlen]
        rcases hopen with hf | hf
        · rcases hfds.mem hf with hold | heq | heq
          · exact Nat.lt_succ_of_lt (h.opened k (Or.inl hold))
          · cases heq
            exact Nat.lt_succ_self _
          · cases heq
        · rcases hfds.mem hf with hold | heq | heq
          · exact Nat.lt_succ_of_lt (h.opened k (Or.inr hold))
          · cases heq
          · cases heq
            exact Nat.lt_succ_self _
      · intro k q c hk hclosed hc hout
        rw [hlen] at hk
        have hne : k ≠ v.pipes.length :=
          fun heq => hclosed (hfds.readEnd_mem (Or.inr heq))
        exact hquiet k q c (Nat.lt_of_le_of_ne (Nat.le_of_lt_succ hk) hne)
          (fun hopen => hclosed (hfds.readEnd_mem (Or.inl hopen))) hc hout

/-!
# What a closed pipe still holds
-/

def ClosedEmpty (v : View) : Prop :=
  forall (k : Nat) pipe, v.pipes[k]? = some pipe ->
    Fd.readEnd k ∉ v.mem.fds -> pipe.unread = []

def ClosesDryView (v : View) (a : Action) : Prop :=
  forall fp pipe, closingView v a = some fp -> v.pipes[fp]? = some pipe ->
    pipe.unread = []

theorem ClosesDry.view_iff {w : World} {v : View} {a : Action}
    (hview : ViewOf w v) (hforeign : ¬ Foreign a) :
    ClosesDry w a <-> ClosesDryView v a := by
  unfold ClosesDry ClosesDryView World.Dry
  rw [hview.closingAt hforeign, hview.pipes]
  cases closingView v a with
  | none => simp
  | some fp =>
      constructor
      · intro hdry fp' pipe hfp hpipe
        cases hfp
        simp only [hpipe] at hdry
        exact hdry
      · intro hdry
        cases hpipe : w.pipes[fp]? with
        | none => simp [hpipe]
        | some pipe => simpa [hpipe] using hdry fp pipe rfl hpipe

theorem Good.nothingLeft_iff {w : World} {v : View} (h : Good w v) :
    OutputRead w <-> ClosedEmpty v := by
  unfold OutputRead ClosedEmpty
  constructor
  · intro hread k pipe hpipe hclosed
    rw [h.view.pipes] at hpipe
    exact pipe.reads_eq_written_iff.mp
      (hread v.mem k pipe h.view.memory hpipe hclosed)
  · intro hempty m k pipe hmem hpipe hclosed
    rw [h.view.mem_eq hmem] at hclosed
    rw [← h.view.pipes] at hpipe
    exact pipe.reads_eq_written_iff.mpr (hempty k pipe hpipe hclosed)

theorem FdStep.closing {v v' : View} {a : Action} (h : FdStep v a v') {k : Nat}
    (hopen : Fd.readEnd k ∈ v.mem.fds) (hclosed : Fd.readEnd k ∉ v'.mem.fds) :
    closingView v a = some k := by
  cases h with
  | same hfds hlen hclosing =>
      rw [hfds] at hclosed
      exact absurd hopen hclosed
  | opened hlen hfds hclosing =>
      exact absurd (hfds.readEnd_mem (Or.inl hopen)) hclosed
  | closed fp hfds hpipes hclosing =>
      rw [hclosing]
      apply Classical.byContradiction
      intro hne
      apply hclosed
      rw [hfds]
      refine (List.mem_erase_of_ne ?_).mpr hopen
      intro heq
      cases heq
      exact hne rfl

theorem RootStep.closedEmpty {v v' : View} {a : Action} (h : RootStep v a v')
    (houtputs : Outputs v) (hk : Kernel v) (hall : AllChildren v)
    (hforeign : ¬ Foreign a) (hempty : ClosedEmpty v)
    (hdry : ClosesDryView v a) : ClosedEmpty v' := by
  intro k pipe' hpipe' hclosed
  rcases h.pipe_back hforeign hpipe' with hold | hwrite | hline | hnew
  · by_cases hopen : Fd.readEnd k ∈ v.mem.fds
    · exact hdry k pipe' ((h.fdStep hforeign).closing hopen hclosed) hold
    · exact hempty k pipe' hold hopen
  · -- only an unreaped child writes, and it has no closed pipe
    rcases hwrite with ⟨hfds, p, hp, hlt, hchild⟩
    rw [hfds] at hclosed
    have hcell := List.getElem?_eq_getElem hlt
    cases hp' : v.children[p] with
    | none =>
        rw [hp'] at hcell
        exact absurd (hall p hcell) hp
    | some c =>
        rw [hp'] at hcell
        rcases hchild c hcell with ⟨halive, hout⟩
        exact absurd (Child.unreaped_of_alive halive)
          (houtputs.quiet k p c (hout ▸ hk.outs p c hcell) hclosed hcell hout)
  · rcases hline with ⟨hfds, pipe, data, hold, hdata⟩
    rw [hfds] at hclosed
    have hnone : pipe.fgets BUFSIZ = none :=
      Pipe.fgets_none_iff.mpr (hempty k pipe hold hclosed)
    rw [hdata] at hnone
    cases hnone
  · have hlt : k < v'.pipes.length :=
      (List.getElem?_eq_some_iff.mp hpipe').choose
    cases h.fdStep hforeign with
    | same hfds hlen hclosing => omega
    | closed fp hfds hpipes hclosing =>
        rw [hpipes] at hlt
        omega
    | opened hlen hfds hclosing =>
        exact absurd (hfds.readEnd_mem (Or.inr hnew)) hclosed

theorem RootStep.closedDry {v v' : View} {a : Action} (h : RootStep v a v')
    (houtputs : Outputs v) (hforeign : ¬ Foreign a) (hempty : ClosedEmpty v') :
    ClosesDryView v a := by
  intro fp pipe hclosing hpipe
  cases h.fdStep hforeign with
  | same hfds hlen hnone =>
      rw [hnone] at hclosing
      cases hclosing
  | opened hlen hfds hnone =>
      rw [hnone] at hclosing
      cases hclosing
  | closed fp' hfds hpipes hsome =>
      rw [hsome] at hclosing
      cases hclosing
      apply hempty fp pipe (by rw [hpipes]; exact hpipe)
      rw [hfds]
      exact houtputs.nodup.not_mem_erase

/-- A run reads everything its children wrote before it closes their pipes,
exactly when every closing step finds its pipe dry. -/
theorem outputRead_iff {pid : Nat} {tests : List CString} {acts : List Action}
    {w : World} (hrun : ExecRun (start pid tests) acts w) :
    Along step (start pid tests) acts OutputRead <->
      StepsMeet step (start pid tests) acts ClosesDry := by
  constructor
  · intro hread pre a post t hacts hpre
    have houtputs := good_along (P := Outputs) (C := fun _ _ => True)
      (outputs_start tests)
      (fun _ _ _ _ hgood hout _ hroot hforeign =>
        hout.step hroot hgood.control hgood.owned hforeign)
      hrun (fun _ _ _ _ _ _ => trivial)
    rcases houtputs pre (a :: post) t hacts hpre with ⟨v, hgood, hout⟩
    have hacts' : acts = (pre ++ [a]) ++ post := by simp [hacts]
    have hexec : ¬ ExecveFails a := hrun.right a (by simp [hacts])
    have hstep : exists u, step t a = some u := by
      have hrun' := hrun.left
      rw [hacts] at hrun'
      rcases runFrom_append.mp hrun' with ⟨t', hpre', hrest⟩
      rw [hpre] at hpre'
      cases hpre'
      rcases runFrom_cons_some.mp hrest with ⟨u, hu, _⟩
      exact ⟨u, hu⟩
    rcases hstep with ⟨u, hu⟩
    rcases hgood.step hexec hu with ⟨v', hgood', hroot, hforeign⟩
    have hread' := hread (pre ++ [a]) post u hacts'
      (runFrom_snoc.mpr ⟨t, hpre, hu⟩)
    exact (ClosesDry.view_iff hgood.view hforeign).mpr
      (hroot.closedDry hout hforeign (hgood'.nothingLeft_iff.mp hread'))
  · intro hdry
    have hall := good_along (P := fun v => Outputs v ∧ ClosedEmpty v)
      (C := ClosesDry)
      ⟨outputs_start tests, by intro k pipe hpipe; cases hpipe⟩
      (by
        intro u v a v' hgood hP hdry hroot hforeign
        rcases hP with ⟨hout, hempty⟩
        exact ⟨hout.step hroot hgood.control hgood.owned hforeign,
          hroot.closedEmpty hout hgood.owned.kernel hgood.children hforeign
            hempty ((ClosesDry.view_iff hgood.view hforeign).mp hdry)⟩)
      hrun hdry
    intro pre post t hacts hpre
    rcases hall pre post t hacts hpre with ⟨v, hgood, _, hempty⟩
    exact hgood.nothingLeft_iff.mpr hempty

/-!
# When a closing step finds its pipe dry

The drain loop ends with an `fgets` that finds the pipe empty.  Only a write can put
something into it before the `waitpid` that follows.
-/

def WritesTo (k : Nat) (w : World) : Action -> Prop
  | .write p _ => exists pr l, w.procs[p]? = some pr ∧ pr.launched = some l ∧ l.out = k
  | _ => False

theorem World.dry_iff {w : World} {k : Nat} :
    w.Dry k <-> forall pipe, w.pipes[k]? = some pipe -> pipe.unread = [] := by
  unfold World.Dry
  cases w.pipes[k]? with
  | none => simp
  | some pipe => simp

theorem World.Dry.of_pipes {w w' : World} {k : Nat} (h : w.Dry k)
    (hsame : w'.pipes = w.pipes) : w'.Dry k := by
  unfold World.Dry
  rw [hsame]
  exact h

theorem World.Dry.opened {w w' : World} {k : Nat} (h : w.Dry k)
    (hnew : w'.pipes = w.pipes ++ [Pipe.empty]) : w'.Dry k := by
  rw [World.dry_iff, hnew]
  intro pipe hpipe
  rw [List.getElem?_append] at hpipe
  split at hpipe
  · exact World.dry_iff.mp h pipe hpipe
  · rw [List.getElem?_singleton] at hpipe
    split at hpipe
    · cases hpipe
      rfl
    · cases hpipe

theorem dry_step {w w' : World} {a : Action} {k : Nat} (h : step w a = some w')
    (hdry : w.Dry k) (hquiet : ¬ WritesTo k w a) : w'.Dry k := by
  cases a with
  | forkCmd p t caller out =>
      rcases stepFork_some h with ⟨m, pc, _, _, _, hfork⟩
      rcases forkCmd_some hfork with ⟨_, hw⟩ | ⟨pid, _, _, hw⟩
      · exact hdry.opened (by rw [hw]; rfl)
      · exact hdry.opened (by rw [hw])
  | execve p ok =>
      rcases stepExecve_some h with ⟨m, caller, pipe, _, _, hw⟩
      refine hdry.of_pipes ?_
      rw [hw]
      split <;> rfl
  | forkTail p out =>
      rcases stepForkTail_some h with ⟨m, caller, pipe, _, _, hw⟩
      exact hdry.of_pipes (by rw [hw]; rfl)
  | visit p t =>
      rcases stepVisit_some h with ⟨m, m', _, hw, _⟩
      exact hdry.of_pipes (by rw [hw]; rfl)
  | fgets p t =>
      rcases stepFgets_some h with ⟨m, pc, m', fp, pipe, _, _, _, hpipe,
        ⟨_, _, hw⟩ | ⟨line, pipe', hline, _, hw⟩⟩
      · exact hdry.of_pipes (by rw [hw]; rfl)
      · rw [hw, World.dry_iff]
        intro pipe'' hpipe''
        have hne : fp ≠ k := by
          rintro rfl
          rw [Pipe.fgets_none_iff.mpr (World.dry_iff.mp hdry pipe hpipe)] at hline
          cases hline
        change (w.pipes.set fp pipe')[k]? = some pipe'' at hpipe''
        rw [List.getElem?_set_ne hne] at hpipe''
        exact World.dry_iff.mp hdry pipe'' hpipe''
  | waitpid p t res =>
      rcases stepWaitpid_some h with ⟨m, pc, pid, m', _, _, _, _, _, hw⟩
      exact hdry.of_pipes (by rw [hw, setMemory_pipes, afterWait_pipes])
  | wake p t =>
      rcases stepWake_some h with ⟨m, _, _, hw⟩
      exact hdry.of_pipes (by rw [hw]; rfl)
  | dumpLog =>
      rcases stepDumpLog_some h with ⟨m, _, hw⟩
      exact hdry.of_pipes (by rw [hw]; rfl)
  | write p bytes =>
      rcases stepWrite_some h with ⟨pr, l, hproc, _, hlaunched, hw⟩
      have hne : l.out ≠ k := fun heq => hquiet ⟨pr, l, hproc, hlaunched, heq⟩
      rw [hw, World.dry_iff]
      intro pipe hpipe
      change (w.pipes.modify l.out fun pipe => pipe.write bytes)[k]? = some pipe at hpipe
      rw [List.getElem?_modify_ne _ _ hne] at hpipe
      exact World.dry_iff.mp hdry pipe hpipe
  | exit p status =>
      rcases stepExit_some h with ⟨pr, l, _, _, _, hw⟩
      exact hdry.of_pipes (by rw [hw]; rfl)

/-- `ClosesDry` on the schedule: from an `fgets` that found nothing on, nothing is
written to the pipe before the `waitpid` that closes it. -/
theorem closesDry_of_quiet {w u : World} {acts : List Action} {a : Action} {fp : Nat}
    (hempty : w.Dry fp) (hrun : run w acts = some u)
    (hquiet : StepsMeet step w acts fun s b => ¬ WritesTo fp s b)
    (hclosing : closingAt u a = some fp) : ClosesDry u a := by
  have hdry : u.Dry fp :=
    runFrom_invariant (fun _ _ _ hs hb hstep => dry_step hstep hs hb) hempty hquiet hrun
  unfold ClosesDry
  rw [hclosing]
  exact hdry

def readOutputRun : List Action :=
  hardwareSetup ++
    [launchOk 0 3, .execve 2 true, .visit 0 0, .visit 0 0,
      .write 2 "MSG: Passed\n".toList, .exit 2 (.exited 0), .fgets 0 0,
      .fgets 0 0, .waitpid 0 0 (.reaped 2), .visit 0 0]

theorem outputRead_readOutput :
    Along step (start 1 ["hpl".toList]) readOutputRun OutputRead :=
  (outputRead_iff (w := _) ⟨rfl, by decide⟩).mpr
    (stepsMeet_of_check (by decide))

/-- The script writes its message after the drain loop found nothing, and exits
before `waitpid`. -/
def lateOutputRun : List Action :=
  hardwareSetup ++
    [launchOk 0 3, .execve 2 true, .visit 0 0, .visit 0 0, .fgets 0 0,
      .write 2 "MSG: Passed\n".toList, .exit 2 (.exited 0),
      .waitpid 0 0 (.reaped 2)]

theorem lateOutput_lost :
    exists w m pipe, ExecRun (start 1 ["hpl".toList]) lateOutputRun w ∧
      w.memory? 0 = some m ∧ w.pipes[1]? = some pipe ∧
        .readEnd 1 ∉ m.fds ∧ pipe.written = "MSG: Passed\n".toList ∧
          pipe.reads = [] ∧
            ¬ Along step (start 1 ["hpl".toList]) lateOutputRun OutputRead := by
  refine ⟨_, _, _, ⟨rfl, by decide⟩, rfl, rfl, by decide, rfl, rfl, ?_⟩
  intro hread
  have hlost := hread lateOutputRun [] _ (List.append_nil _).symm rfl _ 1 _ rfl
    rfl (by decide)
  cases hlost

end Scheduler
end Breakin
