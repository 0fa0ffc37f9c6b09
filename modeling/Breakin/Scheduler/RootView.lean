import Breakin.Scheduler.Effects

/-!
# The view of the process that started main

The invariants of the scheduler speak about one process: its memory, the children
it launched itself, and the pipes.  `RootStep` says once and for all how an
action changes that view, whoever takes it; a child whose `execve` failed acts on
its own memory and on its own children, so most of its steps are invisible.
-/

namespace Breakin
namespace Scheduler

open Foundation

structure Child where
  pid : Nat
  caller : Caller
  out : Nat
  life : Life
deriving DecidableEq

namespace Child

def Unreaped (c : Child) : Prop :=
  c.life.Unreaped

def setLife (life : Life) (c : Child) : Child :=
  { c with life := life }

def SelectedBy (pid : Int) (c : Child) : Prop :=
  c.Unreaped ∧ (pid = -1 ∨ pid = 0 ∨ (c.pid : Int) = pid)

@[simp] theorem setLife_pid (life : Life) (c : Child) :
    (c.setLife life).pid = c.pid := rfl

@[simp] theorem setLife_caller (life : Life) (c : Child) :
    (c.setLife life).caller = c.caller := rfl

@[simp] theorem setLife_out (life : Life) (c : Child) :
    (c.setLife life).out = c.out := rfl

@[simp] theorem setLife_life (life : Life) (c : Child) :
    (c.setLife life).life = life := rfl

theorem unreaped_of_alive {c : Child} (h : c.life = .alive) : c.Unreaped := by
  simp [Unreaped, h, Life.Unreaped]

theorem unreaped_of_zombie {c : Child} {st : WaitStatus}
    (h : c.life = .zombie st) : c.Unreaped := by
  simp [Unreaped, h, Life.Unreaped]

theorem not_unreaped_of_reaped {c : Child} {st : WaitStatus}
    (h : c.life = .reaped st) : ¬ c.Unreaped := by
  simp [Unreaped, h, Life.Unreaped]

theorem alive_of_unreaped {c : Child} (h : c.Unreaped)
    (hzombie : c.life.zombie? = none) : c.life = .alive := by
  unfold Unreaped at h
  cases hlife : c.life with
  | alive => rfl
  | zombie st => simp [hlife, Life.zombie?] at hzombie
  | reaped st => simp [hlife, Life.Unreaped] at h

end Child

def childOf (pr : Process) : Option Child :=
  match pr.launched with
  | some l =>
      if l.parent = 0 then
        some { pid := pr.pid, caller := l.caller, out := l.out, life := pr.life }
      else
        none
  | none => none

/-- The children keep the positions of their processes; a position that is not a
child of the first process holds `none`. -/
structure View where
  mem : Memory
  children : List (Option Child)
  pipes : List Pipe

def View.Has (v : View) (q : Nat) (c : Child) : Prop :=
  v.children[q]? = some (some c)

structure ViewOf (w : World) (v : View) : Prop where
  root : exists pid, w.procs[0]? = some
    { pid := pid, launched := none, life := .alive, image := .breakin v.mem }
  children : v.children = w.procs.map childOf
  pipes : v.pipes = w.pipes

/-- The threads of the first process: `main`, and one `dump_log` thread for each
further position. -/
def MainPC : PC -> Prop
  | .helper .hardware _ => True
  | .helper _ _ => False
  | .execve _ _ => False
  | .forkTail _ _ => False
  | _ => True

def DumpPC (t : Nat) : PC -> Prop
  | .helper x _ => x = .dumpLog t
  | _ => False

structure RootThreads (m : Memory) : Prop where
  main : exists pc, m.threads[0]? = some pc ∧ MainPC pc
  dump : forall t pc, 0 < t -> m.threads[t]? = some pc -> DumpPC t pc

/-- Steps of the code of breakin by another process, past its `execve`. -/
def Foreign : Action -> Prop
  | .forkCmd p _ _ _ => p ≠ 0
  | .forkTail p _ => p ≠ 0
  | .visit p _ => p ≠ 0
  | .fgets p _ => p ≠ 0
  | .waitpid p _ _ => p ≠ 0
  | .wake p _ => p ≠ 0
  | _ => False

inductive RootStep : View -> Action -> View -> Prop where
  | foreign {v : View} {a : Action} {pipes : List Pipe}
      (extra : List (Option Child)) :
      Foreign a ->
      (forall c, c ∈ extra -> c = none) ->
      v.pipes.length ≤ pipes.length ->
      RootStep v a
        { v with children := v.children ++ extra, pipes := pipes }
  | execve {v : View} {p : Nat} {ok : Bool} :
      p ≠ 0 ->
      RootStep v (.execve p ok) v
  | write {v : View} {p : Nat} (out : Nat) {bytes : List Char} :
      (p ≠ 0 ∧ p < v.children.length ∧
        forall c, v.Has p c -> c.life = .alive ∧ c.out = out) ->
      RootStep v (.write p bytes)
        { v with pipes := v.pipes.modify out fun pipe => pipe.write bytes }
  | exit {v : View} {p : Nat} {status : WaitStatus} :
      (forall c, v.Has p c -> c.life = .alive) ->
      RootStep v (.exit p status)
        { v with
          children := v.children.modify p
            (Option.map (Child.setLife (.zombie status))) }
  | dumpLog {v : View} :
      RootStep v .dumpLog
        { v with
          mem := { v.mem with
            threads := v.mem.threads ++
              [.helper (.dumpLog v.mem.threads.length) .fork] } }
  | forkFailed {v : View} {t : Nat} {pc : PC} {caller : Caller}
      {out : ForkOutcome} :
      v.mem.threads[t]? = some pc ->
      callerAt v.mem pc = some caller ->
      out.child = none ->
      RootStep v (.forkCmd 0 t caller out)
        { v with
          mem := forkReturned (openPipe v.mem v.pipes.length caller) t
            v.pipes.length (-1) caller out
          pipes := v.pipes ++ [Pipe.empty] }
  | forked {v : View} {t pid : Nat} {pc : PC} {caller : Caller}
      {out : ForkOutcome} :
      v.mem.threads[t]? = some pc ->
      callerAt v.mem pc = some caller ->
      out.child = some pid ->
      0 < pid ->
      (forall q c, v.Has q c -> c.Unreaped -> c.pid ≠ pid) ->
      RootStep v (.forkCmd 0 t caller out)
        { mem := forkReturned (openPipe v.mem v.pipes.length caller) t
            v.pipes.length pid caller out
          children := v.children ++
            [some { pid := pid, caller := caller, out := v.pipes.length,
                    life := .alive }]
          pipes := v.pipes ++ [Pipe.empty] }
  | launch {v : View} {t i : Nat} {m : Memory} :
      v.mem.threads[t]? = some (.launch i) ->
      launchVisit v.mem t i = some m ->
      RootStep v (.visit 0 t) { v with mem := m }
  | poll {v : View} {t i : Nat} :
      v.mem.threads[t]? = some (.poll i) ->
      RootStep v (.visit 0 t) { v with mem := pollVisit v.mem t i }
  | drained {v : View} {t fp : Nat} {pc : PC} {pipe : Pipe} {m : Memory} :
      v.mem.threads[t]? = some pc ->
      drainArg v.mem pc = some fp ->
      v.pipes[fp]? = some pipe ->
      pipe.unread = [] ->
      Scheduler.drained v.mem t none pc = some m ->
      RootStep v (.fgets 0 t) { v with mem := m }
  | line {v : View} {t fp : Nat} {pc : PC} {pipe pipe' : Pipe}
      {data : List Char} {m : Memory} :
      v.mem.threads[t]? = some pc ->
      drainArg v.mem pc = some fp ->
      v.pipes[fp]? = some pipe ->
      pipe.fgets BUFSIZ = some (data, pipe') ->
      Scheduler.drained v.mem t (some data) pc = some m ->
      RootStep v (.fgets 0 t)
        { v with mem := m, pipes := v.pipes.set fp pipe' }
  | waitError {v : View} {t : Nat} {pc : PC} {pid : Int} {m : Memory} :
      v.mem.threads[t]? = some pc ->
      waitArg v.mem pc = some pid ->
      (forall q c, v.Has q c -> ¬ c.SelectedBy pid) ->
      waited v.mem t .error pc = some m ->
      RootStep v (.waitpid 0 t .error) { v with mem := m }
  | waitNochange {v : View} {t : Nat} {pc : PC} {pid : Int} {m : Memory} :
      v.mem.threads[t]? = some pc ->
      waitArg v.mem pc = some pid ->
      (exists q c, v.Has q c ∧ c.SelectedBy pid) ->
      (forall q c, v.Has q c -> c.SelectedBy pid -> c.life.zombie? = none) ->
      waited v.mem t .nochange pc = some m ->
      RootStep v (.waitpid 0 t .nochange) { v with mem := m }
  | waitReaped {v : View} {t j : Nat} {pc : PC} {pid : Int} {c : Child}
      {st : WaitStatus} {m : Memory} :
      v.mem.threads[t]? = some pc ->
      waitArg v.mem pc = some pid ->
      v.Has j c ->
      c.SelectedBy pid ->
      c.life = .zombie st ->
      waited v.mem t (.status st) pc = some m ->
      RootStep v (.waitpid 0 t (.reaped j))
        { v with
          mem := m
          children := v.children.modify j
            (Option.map (Child.setLife (.reaped st))) }
  | wake {v : View} {t : Nat} :
      v.mem.threads[t]? = some .sleep ->
      RootStep v (.wake 0 t) { v with mem := v.mem.goto t (.launch 0) }

/-!
# Every step is a step of the view
-/

theorem childOf_setImage (pr : Process) (image : Image) :
    childOf { pr with image := image } = childOf pr := rfl

theorem childOf_setLife (pr : Process) (life : Life) :
    childOf { pr with life := life } = (childOf pr).map (Child.setLife life) := by
  unfold childOf
  cases pr.launched with
  | none => rfl
  | some l =>
      by_cases hparent : l.parent = 0
      · simp [hparent, Child.setLife]
      · simp [hparent]

theorem children_setImage (w : World) (p : Nat) (image : Image) :
    (w.setImage p image).procs.map childOf = w.procs.map childOf := by
  apply List.ext_getElem?
  intro q
  rw [List.getElem?_map, List.getElem?_map, setImage_procs]
  cases w.procs[q]? with
  | none => rfl
  | some pr =>
      by_cases hq : p = q
      · simp [hq, childOf_setImage]
      · simp [hq]

theorem children_setLife (w : World) (p : Nat) (life : Life) :
    (w.setLife p life).procs.map childOf =
      (w.procs.map childOf).modify p (Option.map (Child.setLife life)) := by
  apply List.ext_getElem?
  intro q
  rw [List.getElem?_map, setLife_procs, List.getElem?_modify, List.getElem?_map]
  cases w.procs[q]? with
  | none => rfl
  | some pr =>
      by_cases hq : p = q
      · simp [hq, childOf_setLife]
      · simp [hq]

theorem ViewOf.memory {w : World} {v : View} (h : ViewOf w v) :
    w.memory? 0 = some v.mem := by
  rcases h.root with ⟨pid, hroot⟩
  exact memory?_some_iff.mpr ⟨_, hroot, rfl, rfl⟩

theorem ViewOf.mem_eq {w : World} {v : View} {m : Memory} (h : ViewOf w v)
    (hm : w.memory? 0 = some m) : m = v.mem := by
  rw [h.memory] at hm
  exact (Option.some.inj hm).symm

theorem ViewOf.has_iff {w : World} {v : View} (h : ViewOf w v) {q : Nat}
    {c : Child} :
    v.Has q c <-> exists pr, w.procs[q]? = some pr ∧ childOf pr = some c := by
  unfold View.Has
  rw [h.children, List.getElem?_map, Option.map_eq_some_iff]

theorem ViewOf.launched_ne_root {w : World} {v : View} (h : ViewOf w v)
    {p : Nat} {pr : Process} {l : Launched} (hproc : w.procs[p]? = some pr)
    (hlaunch : pr.launched = some l) : p ≠ 0 := by
  intro hzero
  rcases h.root with ⟨rootPid, hroot⟩
  rw [← hzero, hproc] at hroot
  cases hroot
  cases hlaunch

theorem ViewOf.dead_ne_root {w : World} {v : View} (h : ViewOf w v) {p : Nat}
    {pr : Process} (hproc : w.procs[p]? = some pr) (hdead : pr.life ≠ .alive) :
    p ≠ 0 := by
  intro hzero
  rcases h.root with ⟨rootPid, hroot⟩
  rw [← hzero, hproc] at hroot
  cases hroot
  exact hdead rfl

theorem childOf_some_iff {pr : Process} {c : Child} :
    childOf pr = some c <->
      pr.launched = some { parent := 0, caller := c.caller, out := c.out } ∧
        pr.pid = c.pid ∧ pr.life = c.life := by
  unfold childOf
  cases hl : pr.launched with
  | none => simp
  | some l =>
      by_cases hparent : l.parent = 0
      · simp only [hparent, if_true, Option.some.injEq]
        constructor
        · intro h
          rw [← h]
          refine ⟨?_, rfl, rfl⟩
          rw [← hparent]
        · intro h
          rcases h with ⟨hlaunch, hpid, hlife⟩
          rw [hlaunch, hpid, hlife]
      · simp only [hparent, if_false]
        constructor
        · intro h
          cases h
        · intro h
          exact absurd (by rw [Option.some.inj h.left]) hparent

theorem ViewOf.has_launched {w : World} {v : View} (h : ViewOf w v) {p : Nat}
    {pr : Process} {l : Launched} {c : Child} (hproc : w.procs[p]? = some pr)
    (hlaunch : pr.launched = some l) (hc : v.Has p c) :
    c.life = pr.life ∧ c.out = l.out := by
  rcases h.has_iff.mp hc with ⟨pr', hproc', hchild⟩
  rw [hproc] at hproc'
  cases hproc'
  rcases childOf_some_iff.mp hchild with ⟨hlaunch', _, hlife⟩
  rw [hlaunch] at hlaunch'
  cases hlaunch'
  exact ⟨hlife.symm, rfl⟩

theorem selects_iff {pr : Process} {c : Child} {pid : Int}
    (h : childOf pr = some c) : Selects 0 pid pr <-> c.SelectedBy pid := by
  rcases childOf_some_iff.mp h with ⟨hlaunch, hpid, hlife⟩
  simp [Selects, Child.SelectedBy, Child.Unreaped, Process.Unreaped, hlaunch,
    hpid, hlife]

theorem childOf_of_selects {pr : Process} {pid : Int} (h : Selects 0 pid pr) :
    exists c, childOf pr = some c := by
  rcases Option.map_eq_some_iff.mp h.left with ⟨l, hl, hparent⟩
  simp [childOf, hl, hparent]

theorem childOf_none_of_selects {pr : Process} {p : Nat} {pid : Int}
    (h : Selects p pid pr) (hp : p ≠ 0) : childOf pr = none := by
  rcases Option.map_eq_some_iff.mp h.left with ⟨l, hl, hparent⟩
  have hne : l.parent ≠ 0 := by
    rw [hparent]
    exact hp
  simp [childOf, hl, hne]

section ViewUpdates

variable {w : World} {v : View}

theorem ViewOf.setMemory_root (h : ViewOf w v) (m : Memory) :
    ViewOf (w.setMemory 0 m) { v with mem := m } where
  root := by
    rcases h.root with ⟨pid, hroot⟩
    exact ⟨pid, by simp [World.setMemory, setImage_procs, hroot]⟩
  children := by rw [World.setMemory, children_setImage, ← h.children]
  pipes := h.pipes

theorem ViewOf.setImage_other (h : ViewOf w v) {p : Nat} (hp : p ≠ 0)
    (image : Image) : ViewOf (w.setImage p image) v where
  root := by
    rcases h.root with ⟨pid, hroot⟩
    exact ⟨pid, by simp [setImage_procs, hroot, hp]⟩
  children := by rw [children_setImage, ← h.children]
  pipes := h.pipes

theorem ViewOf.setLife_other (h : ViewOf w v) {p : Nat} (hp : p ≠ 0)
    (life : Life) :
    ViewOf (w.setLife p life)
      { v with
        children := v.children.modify p (Option.map (Child.setLife life)) } where
  root := by
    rcases h.root with ⟨pid, hroot⟩
    exact ⟨pid, by simp [setLife_procs, hroot, hp]⟩
  children := by rw [children_setLife, ← h.children]
  pipes := h.pipes

theorem ViewOf.append (h : ViewOf w v) (pr : Process) :
    ViewOf { w with procs := w.procs ++ [pr] }
      { v with children := v.children ++ [childOf pr] } where
  root := by
    rcases h.root with ⟨pid, hroot⟩
    exact ⟨pid, by rw [List.getElem?_append_left (List.getElem?_eq_some_iff.mp
      hroot).choose, hroot]⟩
  children := by simp [h.children]
  pipes := h.pipes

theorem ViewOf.withPipes (h : ViewOf w v) (pipes : List Pipe) :
    ViewOf { w with pipes := pipes } { v with pipes := pipes } where
  root := h.root
  children := h.children
  pipes := rfl

end ViewUpdates

theorem fresh_children {w : World} {v : View} (h : ViewOf w v) {pid : Nat}
    (hfresh : freshPid w pid = true) :
    0 < pid ∧ forall q c, v.Has q c -> c.Unreaped -> c.pid ≠ pid := by
  simp only [freshPid, Bool.and_eq_true, bne_iff_ne, ne_eq, List.all_eq_true,
    Bool.or_eq_true, Bool.not_eq_true', decide_eq_false_iff_not] at hfresh
  constructor
  · exact Nat.pos_of_ne_zero hfresh.left
  · intro q c hc hun heq
    rcases h.has_iff.mp hc with ⟨pr, hproc, hchild⟩
    rcases childOf_some_iff.mp hchild with ⟨_, hpid, hlife⟩
    rcases hfresh.right pr (List.mem_of_getElem? hproc) with hne | hreaped
    · exact hne (hpid.trans heq)
    · apply hreaped
      unfold Process.Unreaped
      rw [hlife]
      exact hun

theorem rootStep_forkCmd_root {w w' : World} {v : View} (h : ViewOf w v)
    {t : Nat} {caller : Caller} {out : ForkOutcome}
    (hstep : stepFork w 0 t caller out = some w') :
    exists v', ViewOf w' v' ∧ RootStep v (.forkCmd 0 t caller out) v' := by
  rcases stepFork_some hstep with ⟨m, pc, hmem, hpc, hcaller, hfork⟩
  rw [h.mem_eq hmem] at hpc hcaller hfork
  rcases forkCmd_some hfork with ⟨hchild, hw⟩ | ⟨pid, hchild, hfresh, hw⟩
  · refine ⟨_, ?_, RootStep.forkFailed hpc hcaller hchild⟩
    rw [hw, ← h.pipes]
    exact (h.withPipes _).setMemory_root _
  · rcases fresh_children h hfresh with ⟨hpos, hfree⟩
    refine ⟨_, ?_, RootStep.forked hpc hcaller hchild hpos hfree⟩
    rw [hw, ← h.pipes]
    exact ((h.setMemory_root _).append _).withPipes _

theorem rootStep_forkCmd_other {w w' : World} {v : View} (h : ViewOf w v)
    {p t : Nat} {caller : Caller} {out : ForkOutcome} (hp : p ≠ 0)
    (hstep : stepFork w p t caller out = some w') :
    exists v', ViewOf w' v' ∧ RootStep v (.forkCmd p t caller out) v' := by
  rcases stepFork_some hstep with ⟨m, pc, hmem, hpc, hcaller, hfork⟩
  have hlen : v.pipes.length ≤ (w.pipes ++ [Pipe.empty]).length := by
    simp [h.pipes]
  rcases forkCmd_some hfork with ⟨hchild, hw⟩ | ⟨pid, hchild, hfresh, hw⟩
  · refine ⟨_, ?_, RootStep.foreign [] hp (by simp) hlen⟩
    rw [hw, List.append_nil]
    exact (h.withPipes _).setImage_other hp _
  · refine ⟨_, ?_, RootStep.foreign [none] hp (by simp) hlen⟩
    rw [hw]
    have hnone : childOf (forkedChild (openPipe m w.pipes.length caller) pid p
        w.pipes.length caller) = none := by
      simp [childOf, forkedChild, hp]
    have happend := ((h.setImage_other hp
      (.breakin (forkReturned (openPipe m w.pipes.length caller) t
        w.pipes.length pid caller out))).append
      (forkedChild (openPipe m w.pipes.length caller) pid p
        w.pipes.length caller)).withPipes (w.pipes ++ [Pipe.empty])
    rw [hnone] at happend
    exact happend

theorem rootStep_waitpid_root {w w' : World} {v : View} (h : ViewOf w v)
    {t : Nat} {res : WaitResult} (hstep : stepWaitpid w 0 t res = some w') :
    exists v', ViewOf w' v' ∧ RootStep v (.waitpid 0 t res) v' := by
  rcases stepWaitpid_some hstep with
    ⟨m, pc, pid, m', hmem, hpc, harg, hallow, hwaited, hw⟩
  rw [h.mem_eq hmem] at hpc harg hwaited
  cases res with
  | error =>
      simp only [waitpidAllows, List.all_eq_true, Bool.not_eq_true',
        decide_eq_false_iff_not] at hallow
      refine ⟨_, ?_, RootStep.waitError hpc harg ?_ hwaited⟩
      · rw [hw]
        exact h.setMemory_root m'
      · intro q c hc
        rcases h.has_iff.mp hc with ⟨pr, hproc, hchild⟩
        rw [← selects_iff hchild]
        exact hallow pr (List.mem_of_getElem? hproc)
  | nochange =>
      simp only [waitpidAllows, Bool.and_eq_true, List.any_eq_true,
        List.all_eq_true, decide_eq_true_eq, Bool.or_eq_true,
        Bool.not_eq_true', decide_eq_false_iff_not,
        Option.isNone_iff_eq_none] at hallow
      refine ⟨_, ?_, RootStep.waitNochange hpc harg ?_ ?_ hwaited⟩
      · rw [hw]
        exact h.setMemory_root m'
      · rcases hallow.left with ⟨pr, hmemPr, hselect⟩
        rcases List.getElem?_of_mem hmemPr with ⟨q, hproc⟩
        rcases childOf_of_selects hselect with ⟨c, hchild⟩
        exact ⟨q, c, h.has_iff.mpr ⟨pr, hproc, hchild⟩,
          (selects_iff hchild).mp hselect⟩
      · intro q c hc hselected
        rcases h.has_iff.mp hc with ⟨pr, hproc, hchild⟩
        rcases hallow.right pr (List.mem_of_getElem? hproc) with hnot | hnone
        · exact absurd ((selects_iff hchild).mpr hselected) hnot
        · rw [← (childOf_some_iff.mp hchild).right.right]
          exact hnone
  | reaped j =>
      cases hproc : w.procs[j]? with
      | none => simp [waitpidAllows, hproc] at hallow
      | some pr =>
          simp only [waitpidAllows, hproc, Bool.and_eq_true, decide_eq_true_eq,
            Option.isSome_iff_exists] at hallow
          rcases hallow with ⟨hselect, st, hzombie⟩
          rcases childOf_of_selects hselect with ⟨c, hchild⟩
          have hlife : pr.life = .zombie st := by
            unfold Life.zombie? at hzombie
            split at hzombie
            · rename_i st' hst
              rw [hst, Option.some.inj hzombie]
            · cases hzombie
          have hj : j ≠ 0 := h.dead_ne_root hproc (by
            rw [hlife]
            intro heq
            cases heq)
          have hout : waitOutcome w (.reaped j) = .status st := by
            cases pr
            cases hlife
            simp [waitOutcome, hproc]
          have hafter : w.afterWait (.reaped j) = w.setLife j (.reaped st) := by
            cases pr
            cases hlife
            simp [World.afterWait, hproc]
          rw [hout] at hwaited
          refine ⟨_, ?_, RootStep.waitReaped hpc harg
            (h.has_iff.mpr ⟨pr, hproc, hchild⟩)
            ((selects_iff hchild).mp hselect)
            ((childOf_some_iff.mp hchild).right.right.symm.trans hlife)
            hwaited⟩
          rw [hw, hafter]
          exact (h.setLife_other hj _).setMemory_root m'

theorem rootStep_waitpid_other {w w' : World} {v : View} (h : ViewOf w v)
    {p t : Nat} {res : WaitResult} (hp : p ≠ 0)
    (hstep : stepWaitpid w p t res = some w') :
    exists v', ViewOf w' v' ∧ RootStep v (.waitpid p t res) v' := by
  rcases stepWaitpid_some hstep with
    ⟨m, pc, pid, m', hmem, hpc, harg, hallow, hwaited, hw⟩
  have hview : ViewOf (w.afterWait res) v := by
    cases res with
    | error => exact h
    | nochange => exact h
    | reaped j =>
        cases hproc : w.procs[j]? with
        | none => simp [waitpidAllows, hproc] at hallow
        | some pr =>
            simp only [waitpidAllows, hproc, Bool.and_eq_true,
              decide_eq_true_eq] at hallow
            have hnone := childOf_none_of_selects hallow.left hp
            unfold World.afterWait
            simp only [hproc]
            split
            · rename_i pid' l st image hpr
              have hj : j ≠ 0 := h.dead_ne_root hproc (by
                intro heq
                cases hpr
                cases heq)
              have hset := h.setLife_other hj (.reaped st)
              -- a child of another process has no position in the view
              have hsame : v.children.modify j
                  (Option.map (Child.setLife (.reaped st))) = v.children := by
                apply List.ext_getElem?
                intro q
                rw [List.getElem?_modify]
                by_cases hq : j = q
                · have hcell : v.children[q]? = some none := by
                    rw [← hq, h.children, List.getElem?_map, hproc]
                    exact congrArg some hnone
                  simp [hq, hcell]
                · simp [hq]
              rw [hsame] at hset
              exact hset
            · exact h
  have hlen : v.pipes.length ≤ v.pipes.length := Nat.le_refl _
  refine ⟨_, ?_, RootStep.foreign [] hp (by simp) hlen⟩
  rw [hw, List.append_nil]
  exact hview.setImage_other hp _

theorem rootStep_visit_root {w w' : World} {v : View} (h : ViewOf w v) {t : Nat}
    (hstep : stepVisit w 0 t = some w') :
    exists v', ViewOf w' v' ∧ RootStep v (.visit 0 t) v' := by
  rcases stepVisit_some hstep with ⟨m, m', hmem, hw, hcase⟩
  rw [h.mem_eq hmem] at hcase
  rw [hw]
  rcases hcase with ⟨i, hpc, hvisit⟩ | ⟨i, hpc, hvisit⟩
  · exact ⟨_, h.setMemory_root m', RootStep.launch hpc hvisit⟩
  · rw [hvisit]
    exact ⟨_, h.setMemory_root _, RootStep.poll hpc⟩

theorem rootStep_fgets_root {w w' : World} {v : View} (h : ViewOf w v) {t : Nat}
    (hstep : stepFgets w 0 t = some w') :
    exists v', ViewOf w' v' ∧ RootStep v (.fgets 0 t) v' := by
  rcases stepFgets_some hstep with
    ⟨m, pc, m', fp, pipe, hmem, hpc, hfp, hpipe, hcase⟩
  rw [h.mem_eq hmem] at hpc hfp hcase
  rw [← h.pipes] at hpipe
  rcases hcase with ⟨hempty, hdrained, hw⟩ | ⟨line, pipe', hline, hdrained, hw⟩
  · rw [hw]
    exact ⟨_, h.setMemory_root m',
      RootStep.drained hpc hfp hpipe hempty hdrained⟩
  · rw [hw, ← h.pipes]
    exact ⟨_, (h.setMemory_root m').withPipes _,
      RootStep.line hpc hfp hpipe hline hdrained⟩

theorem rootStep_foreign {w : World} {v : View} (h : ViewOf w v) {a : Action}
    {p : Nat} {m : Memory} {pipes : List Pipe} (hp : p ≠ 0) (ha : Foreign a)
    (hlen : w.pipes.length ≤ pipes.length) :
    exists v', ViewOf { w.setMemory p m with pipes := pipes } v' ∧
      RootStep v a v' := by
  refine ⟨_, ?_, RootStep.foreign [] ha (by simp) (h.pipes ▸ hlen)⟩
  rw [List.append_nil]
  exact (h.setImage_other hp _).withPipes pipes

theorem RootThreads.not_exec {m : Memory} (h : RootThreads m) {caller : Caller}
    {pipe : Nat} : m.threads[0]? ≠ some (.execve caller pipe) ∧
      m.threads[0]? ≠ some (.forkTail caller pipe) := by
  rcases h.main with ⟨pc, hpc, hmain⟩
  constructor
  · intro heq
    rw [hpc] at heq
    cases heq
    exact hmain
  · intro heq
    rw [hpc] at heq
    cases heq
    exact hmain

theorem rootStep_of_step {w w' : World} {v : View} {a : Action}
    (h : ViewOf w v) (hthreads : RootThreads v.mem)
    (hstep : step w a = some w') :
    exists v', ViewOf w' v' ∧ RootStep v a v' := by
  cases a with
  | forkCmd p t caller out =>
      by_cases hp : p = 0
      · subst hp
        exact rootStep_forkCmd_root h hstep
      · exact rootStep_forkCmd_other h hp hstep
  | execve p ok =>
      rcases stepExecve_some hstep with ⟨m, caller, pipe, hmem, hpc, hw⟩
      have hp : p ≠ 0 := by
        intro hzero
        rw [hzero] at hmem
        rw [h.mem_eq hmem] at hpc
        exact hthreads.not_exec.left hpc
      refine ⟨v, ?_, RootStep.execve hp⟩
      rw [hw]
      cases ok with
      | false => exact h.setImage_other hp _
      | true => exact h.setImage_other hp _
  | forkTail p out =>
      rcases stepForkTail_some hstep with ⟨m, caller, pipe, hmem, hpc, hw⟩
      have hp : p ≠ 0 := by
        intro hzero
        rw [hzero] at hmem
        rw [h.mem_eq hmem] at hpc
        exact hthreads.not_exec.right hpc
      rw [hw]
      exact rootStep_foreign h hp hp (Nat.le_refl _)
  | visit p t =>
      by_cases hp : p = 0
      · subst hp
        exact rootStep_visit_root h hstep
      · rcases stepVisit_some hstep with ⟨m, m', hmem, hw, _hcase⟩
        rw [hw]
        exact rootStep_foreign h hp hp (Nat.le_refl _)
  | fgets p t =>
      by_cases hp : p = 0
      · subst hp
        exact rootStep_fgets_root h hstep
      · rcases stepFgets_some hstep with
          ⟨m, pc, m', fp, pipe, hmem, hpc, hfp, hpipe, hcase⟩
        rcases hcase with ⟨_, _, hw⟩ | ⟨line, pipe', _, _, hw⟩
        · rw [hw]
          exact rootStep_foreign h hp hp (Nat.le_refl _)
        · rw [hw]
          exact rootStep_foreign h hp hp (by simp)
  | waitpid p t res =>
      by_cases hp : p = 0
      · subst hp
        exact rootStep_waitpid_root h hstep
      · exact rootStep_waitpid_other h hp hstep
  | wake p t =>
      rcases stepWake_some hstep with ⟨m, hmem, hpc, hw⟩
      rw [hw]
      by_cases hp : p = 0
      · subst hp
        rw [h.mem_eq hmem] at hpc ⊢
        exact ⟨_, h.setMemory_root _, RootStep.wake hpc⟩
      · exact rootStep_foreign h hp hp (Nat.le_refl _)
  | dumpLog =>
      rcases stepDumpLog_some hstep with ⟨m, hmem, hw⟩
      rw [hw, h.mem_eq hmem]
      exact ⟨_, h.setMemory_root _, RootStep.dumpLog⟩
  | write p bytes =>
      rcases stepWrite_some hstep with ⟨pr, l, hproc, hlife, hlaunch, hw⟩
      refine ⟨_, ?_, RootStep.write l.out ?_⟩
      · rw [hw, ← h.pipes]
        exact h.withPipes _
      · refine ⟨h.launched_ne_root hproc hlaunch, ?_, ?_⟩
        · rw [h.children, List.length_map]
          exact (List.getElem?_eq_some_iff.mp hproc).choose
        · intro c hc
          rcases h.has_launched hproc hlaunch hc with ⟨hsame, hout⟩
          exact ⟨hsame.trans hlife, hout⟩
  | exit p status =>
      rcases stepExit_some hstep with ⟨pr, l, hproc, hlife, hlaunch, hw⟩
      refine ⟨_, ?_, RootStep.exit ?_⟩
      · rw [hw]
        exact h.setLife_other (h.launched_ne_root hproc hlaunch) _
      · intro c hc
        exact (h.has_launched hproc hlaunch hc).left.trans hlife

end Scheduler
end Breakin
