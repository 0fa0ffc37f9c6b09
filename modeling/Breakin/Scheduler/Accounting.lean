import Breakin.Scheduler.Launches

/-!
# Accounting of test results

A slot credits itself with whatever its `waitpid` reaped.  The credit is right as
long as every `waitpid` that ends a wait got the process id of the waiter's own
child, which a failed `fork` breaks: it leaves -1 in `pid`.
-/

namespace Breakin
namespace Scheduler

open Foundation

def passes : WaitStatus -> Bool
  | .exited code => code == 0 || code == 255
  | .signaled _ => false

def fails : WaitStatus -> Bool
  | .exited code => !(code == 0 || code == 255)
  | .signaled _ => false

/-- The process was launched for script `i` and reaped with a status in `f`. -/
def credited (i : Nat) (f : WaitStatus -> Bool) (pr : Process) : Bool :=
  match pr.launched with
  | none => false
  | some l =>
      match pr.life with
      | .reaped st => decide (l.caller = .burnin i) && f st
      | _ => false

def World.reapedAs (w : World) (i : Nat) (f : WaitStatus -> Bool) : Nat :=
  w.procs.countP (credited i f)

/-- The counters are 64 bits wide: they hold the two numbers modulo 2^64. -/
def Accounted (w : World) : Prop :=
  forall m (i : Nat) script, w.memory? 0 = some m ->
    m.scripts[i]? = some script ->
      script.passCount = UInt64.ofNat (w.reapedAs i passes) ∧
        script.failCount = UInt64.ofNat (w.reapedAs i fails)

def PC.isReap : PC -> Bool
  | .reap _ => true
  | _ => false

def FindsNothing (w : World) (p : Nat) (pc : PC) : Prop :=
  (forall pr, pr ∈ w.procs -> Selects p (-1) pr -> pr.life.zombie? = none) ∧
    (pc.isReap = true -> exists pr, pr ∈ w.procs ∧ Selects p (-1) pr)

instance (w : World) (p : Nat) (pc : PC) : Decidable (FindsNothing w p pc) :=
  inferInstanceAs (Decidable (_ ∧ _))

/-- A `waitpid` call with the -1 of a failed `fork` finds nothing to reap. -/
def HarmlessWait (w : World) : Action -> Prop
  | .waitpid p t _ =>
      match w.at? p t with
      | none => True
      | some (m, pc) => waitArg m pc = some (-1) -> FindsNothing w p pc
  | _ => True

instance (w : World) : DecidablePred (HarmlessWait w)
  | .waitpid p t res => by
      simp only [HarmlessWait]
      cases w.at? p t with
      | none => exact isTrue trivial
      | some place => exact inferInstanceAs (Decidable (_ -> _))
  | .forkCmd .. | .forkTail .. | .visit .. | .fgets .. | .execve .. | .wake ..
  | .dumpLog | .write .. | .exit .. => isTrue trivial

/-!
# Children of the view
-/

def creditedCell (i : Nat) (f : WaitStatus -> Bool) : Option Child -> Bool
  | some c =>
      match c.life with
      | .reaped st => decide (c.caller = .burnin i) && f st
      | _ => false
  | none => false

theorem creditedCell_reaped (i : Nat) (f : WaitStatus -> Bool) (c : Child)
    (st : WaitStatus) : creditedCell i f (some (c.setLife (.reaped st))) =
      (decide (c.caller = .burnin i) && f st) := rfl

theorem creditedCell_zombie (i : Nat) (f : WaitStatus -> Bool) {c : Child}
    {st : WaitStatus} (h : c.life = .zombie st) :
    creditedCell i f (some c) = false := by
  simp [creditedCell, h]

def View.reapedAs (v : View) (i : Nat) (f : WaitStatus -> Bool) : Nat :=
  v.children.countP (creditedCell i f)

theorem Good.reapedAs {w : World} {v : View} (h : Good w v) (i : Nat)
    (f : WaitStatus -> Bool) : w.reapedAs i f = v.reapedAs i f := by
  unfold World.reapedAs View.reapedAs
  rw [h.view.children, List.countP_map]
  apply List.countP_congr
  intro pr hpr
  rcases List.getElem?_of_mem hpr with ⟨q, hproc⟩
  have hsame : credited i f pr = creditedCell i f (childOf pr) := by
    cases hchild : childOf pr with
    | some c =>
        rcases childOf_some_iff.mp hchild with ⟨hlaunched, _, hlife⟩
        simp only [credited, creditedCell, hlaunched, hlife]
    | none =>
        have hcell : v.children[q]? = some none := by
          rw [h.view.children, List.getElem?_map, hproc, Option.map_some,
            hchild]
        rcases h.view.root with ⟨rootPid, hroot⟩
        rw [← h.children q hcell, hproc] at hroot
        rw [Option.some.inj hroot]
        rfl
  rw [hsame]
  rfl

theorem countP_modify {α : Type} {l : List α} {j : Nat} {x : α}
    (h : l[j]? = some x) (p : α -> Bool) (g : α -> α) :
    (l.modify j g).countP p + (if p x then 1 else 0) =
      l.countP p + (if p (g x) then 1 else 0) := by
  induction l generalizing j with
  | nil => cases h
  | cons y rest ih =>
      cases j with
      | zero =>
          cases h
          simp only [List.modify_zero_cons, List.countP_cons]
          omega
      | succ j =>
          have hrest := ih (j := j) h
          simp only [List.modify_succ_cons, List.countP_cons]
          omega

theorem RootStep.unreaped {v v' : View} {a : Action} (h : RootStep v a v')
    {q : Nat} {c : Child} (hc : v.Has q c) (hun : c.Unreaped) :
    (exists c', v'.Has q c' ∧ Older c c' ∧ c'.Unreaped) ∨
      exists t, a = .waitpid 0 t (.reaped q) := by
  have hsame : v'.children = v.children ->
      exists c', v'.Has q c' ∧ Older c c' ∧ c'.Unreaped := by
    intro heq
    refine ⟨c, ?_, Older.refl c, hun⟩
    unfold View.Has
    rw [heq]
    exact hc
  have happend : forall extra, v'.children = v.children ++ extra ->
      exists c', v'.Has q c' ∧ Older c c' ∧ c'.Unreaped := by
    intro extra heq
    refine ⟨c, ?_, Older.refl c, hun⟩
    unfold View.Has
    rw [heq, List.getElem?_append_left (List.getElem?_eq_some_iff.mp hc).choose]
    exact hc
  cases h with
  | foreign extra hforeign hnone hlen => exact Or.inl (happend extra rfl)
  | forked hpc hcaller hchild hpos hfree => exact Or.inl (happend _ rfl)
  | exit halive =>
      rename_i p status
      left
      by_cases hp : p = q
      · refine ⟨c.setLife (.zombie status), ?_, ⟨rfl, rfl, rfl, fun _ => hun⟩,
          Child.unreaped_of_zombie rfl⟩
        unfold View.Has at hc ⊢
        simp [hc, hp]
      · refine ⟨c, ?_, Older.refl c, hun⟩
        unfold View.Has at hc ⊢
        simp [hc, hp]
  | waitReaped hpc harg hchild hselect hlife hwaited =>
      rename_i t j pc pid c0 st m
      by_cases hj : j = q
      · exact Or.inr ⟨t, by rw [hj]⟩
      · refine Or.inl ⟨c, ?_, Older.refl c, hun⟩
        unfold View.Has at hc ⊢
        simp [hc, hj]
  | _ => exact Or.inl (hsame rfl)

/-!
# Every watched stream belongs to a child that can still be reaped
-/

def View.Attends (v : View) (caller : Caller) (pid : Int) : Prop :=
  exists q c, v.Has q c ∧ c.Unreaped ∧ c.caller = caller ∧ (c.pid : Int) = pid

/-- A slot or helper loop with a stream has its child in the kernel's table, or
the -1 of a failed `fork`. -/
structure Attended (v : View) : Prop where
  slot : forall (i : Nat) script fp, v.mem.scripts[i]? = some script ->
    script.running = 1 -> script.fpStdout = some fp -> script.pid ≠ -1 ->
      v.Attends (.burnin i) script.pid
  helper : forall x pid fp, Following v.mem x pid fp -> pid ≠ -1 ->
    v.Attends (.helper x) pid

def waiterAt : PC -> Option Caller
  | .reap i => some (.burnin i)
  | .helper x _ => some (.helper x)
  | _ => none

theorem waitArg_cases {m : Memory} {pc : PC} {pid : Int}
    (h : waitArg m pc = some pid) :
    (exists i, pc = .reap i) ∨ exists x fp, pc = .helper x (.reap pid fp) := by
  unfold waitArg at h
  split at h
  · exact Or.inl ⟨_, rfl⟩
  · cases h
    exact Or.inr ⟨_, _, rfl⟩
  · cases h

theorem Attended.waiter {v : View} (h : Attended v) (hcontrol : Control v.mem)
    {t : Nat} {pc : PC} {pid : Int} (hpc : v.mem.threads[t]? = some pc)
    (harg : waitArg v.mem pc = some pid) (hpid : pid ≠ -1) :
    exists caller, waiterAt pc = some caller ∧ v.Attends caller pid := by
  rcases waitArg_cases harg with ⟨i, hreap⟩ | ⟨x, fp, hreap⟩
  · rw [hreap] at hpc harg ⊢
    rcases hcontrol.reaping hpc harg with ⟨script, fp, hscript, hrun, hfp, heq⟩
    rw [← heq] at hpid ⊢
    exact ⟨_, rfl, h.slot i script fp hscript hrun hfp hpid⟩
  · rw [hreap] at hpc ⊢
    exact ⟨_, rfl, h.helper x pid fp ⟨t, _, hpc, Or.inr rfl⟩ hpid⟩

/-- A child reaped with a process id that `fork` gave is the waiter's own. -/
theorem Attended.reaps_own {v : View} (h : Attended v) (hk : Kernel v)
    (hcontrol : Control v.mem) {t j : Nat} {pc : PC} {pid : Int} {c : Child}
    (hpc : v.mem.threads[t]? = some pc) (harg : waitArg v.mem pc = some pid)
    (hpid : pid ≠ -1) (hc : v.Has j c) (hsel : c.SelectedBy pid) :
    waiterAt pc = some c.caller := by
  rcases h.waiter hcontrol hpc harg hpid with
    ⟨caller, hwaiter, q, own, hown, hun, hcaller, heq⟩
  have hj := Child.selectedBy_own hk hown hun heq hc hsel
  subst hj
  unfold View.Has at hc hown
  rw [hc] at hown
  cases hown
  rw [hwaiter, hcaller]

theorem View.Attends.step {v v' : View} {a : Action} {caller : Caller}
    {pid : Int} (hatt : v.Attends caller pid) (h : RootStep v a v') :
    v'.Attends caller pid ∨
      exists q c t, a = .waitpid 0 t (.reaped q) ∧ v.Has q c ∧
        c.caller = caller := by
  rcases hatt with ⟨q, c, hc, hun, hcaller, hpid⟩
  rcases h.unreaped hc hun with ⟨c', hc', holder, hun'⟩ | ⟨t, ha⟩
  · left
    exact ⟨q, c', hc', hun', holder.caller.trans hcaller, by
      rw [holder.pid, hpid]⟩
  · exact Or.inr ⟨q, c, t, ha, hc, hcaller⟩

theorem RootStep.attended_of {v v' : View} {a : Action} {L : Caller -> Prop}
    (h : RootStep v a v') (hatt : Attended v)
    (hlost : forall q c t, a = .waitpid 0 t (.reaped q) -> v.Has q c ->
      L c.caller)
    (hslot : forall (i : Nat) script' fp, v'.mem.scripts[i]? = some script' ->
      script'.running = 1 -> script'.fpStdout = some fp ->
        script'.pid ≠ -1 ->
          v'.Attends (.burnin i) script'.pid ∨
            exists script, v.mem.scripts[i]? = some script ∧
              script.running = 1 ∧ script.fpStdout = some fp ∧
                script.pid = script'.pid ∧ ¬ L (.burnin i))
    (hfollow : forall x pid fp, Following v'.mem x pid fp -> pid ≠ -1 ->
      v'.Attends (.helper x) pid ∨
        Following v.mem x pid fp ∧ ¬ L (.helper x)) : Attended v' where
  slot := by
    intro i script' fp hscript' hrun hfp hpid
    rcases hslot i script' fp hscript' hrun hfp hpid with hnew |
      ⟨script, hscript, hrun0, hfp0, hpid0, hkept⟩
    · exact hnew
    · rw [← hpid0] at hpid ⊢
      rcases (hatt.slot i script fp hscript hrun0 hfp0 hpid).step h with hold |
        ⟨q, c, t, ha, hc, hcaller⟩
      · exact hold
      · exact absurd (hcaller ▸ hlost q c t ha hc) hkept
  helper := by
    intro x pid fp hfol hpid
    rcases hfollow x pid fp hfol hpid with hnew | ⟨hfol0, hkept⟩
    · exact hnew
    · rcases (hatt.helper x pid fp hfol0 hpid).step h with hold |
        ⟨q, c, t, ha, hc, hcaller⟩
      · exact hold
      · exact absurd (hcaller ▸ hlost q c t ha hc) hkept

theorem RootStep.attended_of_move {v v' : View} {a : Action}
    {L : Caller -> Prop} {t : Nat} {pc pc' : PC} (h : RootStep v a v')
    (hatt : Attended v) (hpc : v.mem.threads[t]? = some pc)
    (hthreads : v'.mem.threads = v.mem.threads.set t pc')
    (hmove : Move v.mem.scripts none pc v'.mem.scripts pc')
    (hlost : forall q c t, a = .waitpid 0 t (.reaped q) -> v.Has q c ->
      L c.caller)
    (hreap : forall (i : Nat) script', pc = .reap i ->
      v'.mem.scripts[i]? = some script' -> script'.running = 1 ->
        v.mem.scripts[i]? = some script')
    (hslotLost : forall (i : Nat) script', L (.burnin i) ->
      v'.mem.scripts[i]? = some script' -> script'.running ≠ 1)
    (hfollowLost : forall x pid fp, L (.helper x) ->
      ¬ Following v'.mem x pid fp) : Attended v' := by
  refine h.attended_of hatt hlost ?_ ?_
  · intro i script' fp hscript' hrun hfp _hpid
    have hkept : ¬ L (.burnin i) :=
      fun hgone => hslotLost i script' hgone hscript' hrun
    rcases hmove.slot_back hscript' with ⟨script, hscript, hfp', hpid', hrun'⟩
    right
    refine ⟨script, hscript, ?_, by rw [← hfp', hfp], hpid'.symm, hkept⟩
    rcases hrun' with hsame | hpcreap
    · rw [← hsame, hrun]
    · have hsame := hreap i script' hpcreap hscript' hrun
      rw [hscript] at hsame
      cases hsame
      exact hrun
  · intro x pid fp hfol _hpid
    exact Or.inr ⟨following_of_move hpc hthreads hmove hfol,
      fun hgone => hfollowLost x pid fp hgone hfol⟩

theorem RootStep.attended_of_fork {v v' : View} {a : Action} {t pipe : Nat}
    {pc pc' : PC} {caller : Caller} {pid : Int} (h : RootStep v a v')
    (hatt : Attended v) (hfork : forall q t, a ≠ .waitpid 0 t (.reaped q))
    (hpc : v.mem.threads[t]? = some pc)
    (hthreads : v'.mem.threads = v.mem.threads.set t pc')
    (hmove : Move v.mem.scripts (some (caller, pipe, pid)) pc
      v'.mem.scripts pc')
    (hnew : pid ≠ -1 -> v'.Attends caller pid) : Attended v' := by
  have hset : forall {y : Helper} {p : Int} {fp : Nat},
      Following v'.mem y p fp -> Following v.mem y p fp ∨
        exists g, pc' = .helper y g ∧ g.Follows p fp := by
    intro y p fp hfol
    exact following_set hpc hthreads hfol
  refine h.attended_of (L := fun _ => False) hatt ?_ ?_ ?_
  · intro q c t ha
    exact absurd ha (hfork q t)
  · intro j script' fp hscript' hrun hfp hpid
    generalize v'.mem.scripts = scripts' at hmove hscript'
    cases hmove with
    | launched ret hscript hidle hret =>
        rename_i i script
        rcases modify_cases hscript' with ⟨old, hold, heq⟩
        by_cases hij : i = j
        · rw [if_pos hij] at heq
          rw [heq] at hfp hpid ⊢
          have hstored : (launchedSlot ret old).pid = pid := by
            simp [launchedSlot, (hret fp hfp).right]
          rw [hstored] at hpid ⊢
          rw [← hij]
          exact Or.inl (hnew hpid)
        · rw [if_neg hij] at heq
          rw [heq] at hrun hfp ⊢
          exact Or.inr ⟨old, hold, hrun, hfp, rfl, id⟩
    | follow => exact Or.inr ⟨script', hscript', hrun, hfp, rfl, id⟩
    | unfollowed hplace =>
        exact Or.inr ⟨script', hscript', hrun, hfp, rfl, id⟩
  · intro y p fp hfol hp
    rcases hset hfol with hold | ⟨g, hg, hfollows⟩
    · exact Or.inr ⟨hold, id⟩
    · generalize v'.mem.scripts = scripts' at hmove
      cases hmove with
      | launched ret hscript hidle hret => cases hg
      | follow =>
          cases hg
          rcases hfollows with heq | heq <;> cases heq
          exact Or.inl (hnew hp)
      | unfollowed hplace =>
          rcases hplace with hdone | ⟨_, hlaunch⟩
          · rw [hdone] at hg
            cases hg
            rcases hfollows with heq | heq <;> cases heq
          · rw [hlaunch] at hg
            cases hg

def HarmlessView (v : View) : Action -> Prop
  | .waitpid _ t _ =>
      forall pc, v.mem.threads[t]? = some pc -> waitArg v.mem pc = some (-1) ->
        (forall q c, v.Has q c -> c.SelectedBy (-1) -> c.life.zombie? = none) ∧
          (pc.isReap = true -> exists q c, v.Has q c ∧ c.SelectedBy (-1))
  | _ => True

theorem HarmlessWait.view {w : World} {v : View} {a : Action}
    (h : HarmlessWait w a) (hview : ViewOf w v) (hforeign : ¬ Foreign a) :
    HarmlessView v a := by
  cases a with
  | waitpid p t res =>
      have hp : p = 0 := Classical.not_not.mp hforeign
      subst hp
      intro pc hpc harg
      have hat : w.at? 0 t = some (v.mem, pc) :=
        at?_some_iff.mpr ⟨hview.memory, hpc⟩
      simp only [HarmlessWait, hat] at h
      rcases h harg with ⟨hzombie, hchild⟩
      constructor
      · intro q c hc hsel
        rcases hview.has_iff.mp hc with ⟨pr, hproc, hcell⟩
        rw [← (childOf_some_iff.mp hcell).right.right]
        exact hzombie pr (List.mem_of_getElem? hproc)
          ((selects_iff hcell).mpr hsel)
      · intro hreap
        rcases hchild hreap with ⟨pr, hmem, hsel⟩
        rcases List.getElem?_of_mem hmem with ⟨q, hproc⟩
        rcases childOf_of_selects hsel with ⟨c, hcell⟩
        exact ⟨q, c, hview.has_iff.mpr ⟨pr, hproc, hcell⟩,
          (selects_iff hcell).mp hsel⟩
  | _ => trivial

/-- Nothing is reaped with the -1 of a failed `fork`. -/
def ReapsByPid (v : View) (a : Action) : Prop :=
  forall t j pc, a = .waitpid 0 t (.reaped j) ->
    v.mem.threads[t]? = some pc -> waitArg v.mem pc ≠ some (-1)

theorem HarmlessView.reapsByPid {v v' : View} {a : Action}
    (h : HarmlessView v a) (hroot : RootStep v a v') : ReapsByPid v a := by
  intro t j pc ha hpc harg
  cases hroot with
  | foreign extra hf =>
      rw [ha] at hf
      exact hf rfl
  | waitReaped hpc' harg' hchild hselect hlife hwaited =>
      cases ha
      rw [hpc] at hpc'
      cases hpc'
      rw [harg] at harg'
      cases harg'
      have hnone := (h pc hpc harg).left j _ hchild hselect
      rw [hlife] at hnone
      cases hnone
  | _ => cases ha

theorem classify_running {script : BurninScript} {res : WaitOutcome}
    (h : (classify script res).running = 1) : res = .nochange := by
  cases res with
  | error => cases h
  | nochange => rfl
  | status st =>
      cases st with
      | signaled sig => cases h
      | exited code =>
          rw [classify_exited] at h
          split at h
          · cases h
          · split at h <;> cases h

theorem waited_reap {m m' : Memory} {t i : Nat} {res : WaitOutcome}
    (h : waited m t res (.reap i) = some m') :
    m'.scripts = m.scripts.modify i fun sc => classify sc res := by
  unfold waited at h
  simp only at h
  split at h
  · split at h
    · cases h
      exact pollWaited_scripts _ _ _ _ _ _
    · cases h
  · cases h

theorem waited_helper_scripts {m m' : Memory} {t fp : Nat} {x : Helper}
    {pid : Int} {res : WaitOutcome}
    (h : waited m t res (.helper x (.reap pid fp)) = some m') :
    m'.scripts = m.scripts := by
  cases h
  unfold helperWaited
  split
  · rfl
  · exact (helperDone_place _ _ _).left

theorem waited_helper_done {m m' : Memory} {t fp : Nat} {x : Helper}
    {pid : Int} {st : WaitStatus}
    (h : waited m t (.status st) (.helper x (.reap pid fp)) = some m') :
    exists pc', m'.threads = m.threads.set t pc' ∧
      forall y g p k, pc' = .helper y g -> ¬ g.Follows p k := by
  cases h
  rcases (helperDone_place ((closeRead m fp).say (helperFinished x)) t
    x).right with ⟨pc', hthreads, hplace⟩
  refine ⟨pc', hthreads, ?_⟩
  intro y g p k hg hfollows
  rcases hplace with hdone | ⟨_, hlaunch⟩
  · rw [hdone] at hg
    cases hg
    rcases hfollows with heq | heq <;> cases heq
  · rw [hlaunch] at hg
    cases hg

theorem RootThreads.helper_unique {m : Memory} (h : RootThreads m) {t t' : Nat}
    {x : Helper} {g g' : HelperPC} (hpc : m.threads[t]? = some (.helper x g))
    (hpc' : m.threads[t']? = some (.helper x g')) : t = t' := by
  have hplace : forall {q : Nat} {k : HelperPC},
      m.threads[q]? = some (.helper x k) ->
        (q = 0 ∧ x = .hardware) ∨ x = .dumpLog q := by
    intro q k hq
    rcases Nat.eq_zero_or_pos q with hzero | hpos
    · left
      rcases h.main with ⟨pc0, hpc0, hmain⟩
      rw [hzero, hpc0] at hq
      cases hq
      cases x with
      | hardware => exact ⟨hzero, rfl⟩
      | dumpLog d => cases hmain
    · exact Or.inr (h.dump q _ hpos hq)
  rcases hplace hpc with ⟨ht, hx⟩ | hx
  · rcases hplace hpc' with ⟨ht', _⟩ | hx'
    · rw [ht, ht']
    · rw [hx] at hx'
      cases hx'
  · rcases hplace hpc' with ⟨_, hx'⟩ | hx'
    · rw [hx] at hx'
      cases hx'
    · rw [hx] at hx'
      cases hx'
      rfl

theorem waited_reap_ends {m m' : Memory} {t i : Nat} {res : WaitOutcome}
    {script' : BurninScript} (h : waited m t res (.reap i) = some m')
    (hres : res ≠ .nochange) (hscript' : m'.scripts[i]? = some script') :
    script'.running ≠ 1 := by
  intro hrun
  rw [waited_reap h] at hscript'
  rcases modify_cases hscript' with ⟨old, _, hnew⟩
  rw [if_pos rfl] at hnew
  rw [hnew] at hrun
  exact hres (classify_running hrun)

theorem RootStep.attended_of_idle {v v' : View} {a : Action}
    (h : RootStep v a v') (hatt : Attended v) (hmem : v'.mem = v.mem)
    (hfork : forall q t, a ≠ .waitpid 0 t (.reaped q)) : Attended v' := by
  refine h.attended_of (L := fun _ => False) hatt ?_ ?_ ?_
  · intro q c t ha
    exact absurd ha (hfork q t)
  · intro i script' fp hscript' hrun hfp _
    rw [hmem] at hscript'
    exact Or.inr ⟨script', hscript', hrun, hfp, rfl, id⟩
  · intro x pid fp hfol _
    rw [hmem] at hfol
    exact Or.inr ⟨hfol, id⟩

theorem RootStep.attended_of_quiet {v v' : View} {a : Action} {t : Nat}
    {pc pc' : PC} (h : RootStep v a v') (hatt : Attended v)
    (hpc : v.mem.threads[t]? = some pc)
    (hthreads : v'.mem.threads = v.mem.threads.set t pc')
    (hmove : Move v.mem.scripts none pc v'.mem.scripts pc')
    (hfork : forall q t, a ≠ .waitpid 0 t (.reaped q))
    (hreap : forall (i : Nat) script', pc = .reap i ->
      v'.mem.scripts[i]? = some script' -> script'.running = 1 ->
        v.mem.scripts[i]? = some script') : Attended v' := by
  refine h.attended_of_move (L := fun _ => False) hatt hpc hthreads hmove ?_
    hreap ?_ ?_
  · intro q c t ha
    exact absurd ha (hfork q t)
  · intro i script' hgone
    exact absurd hgone id
  · intro x pid fp hgone
    exact absurd hgone id

theorem RootStep.attended_of_reap {v v' : View} {t j : Nat} {pc : PC}
    {pid : Int} {c : Child} {st : WaitStatus}
    (h : RootStep v (.waitpid 0 t (.reaped j)) v') (hatt : Attended v)
    (hcontrol : Control v.mem) (hpc : v.mem.threads[t]? = some pc)
    (harg : waitArg v.mem pc = some pid) (hchild : v.Has j c)
    (hown : waiterAt pc = some c.caller)
    (hwaited : waited v.mem t (.status st) pc = some v'.mem) :
    Attended v' := by
  have hres : WaitOutcome.status st ≠ .nochange := by
    intro heq
    cases heq
  rcases waited_move hwaited with ⟨pc', hthreads, hmove⟩
  refine h.attended_of_move (L := fun caller => waiterAt pc = some caller)
    hatt hpc hthreads hmove ?_ ?_ ?_ ?_
  · intro q c' t' ha hc'
    cases ha
    unfold View.Has at hc' hchild
    rw [hchild] at hc'
    cases hc'
    exact hown
  · intro i script' heq hscript' hrun
    rw [heq] at hwaited
    exact absurd hrun (waited_reap_ends hwaited hres hscript')
  · intro i script' hwaiter hscript'
    rcases waitArg_cases harg with ⟨k, heq⟩ | ⟨x, fp, heq⟩
    · rw [heq] at hwaiter hwaited
      cases hwaiter
      exact waited_reap_ends hwaited hres hscript'
    · rw [heq] at hwaiter
      cases hwaiter
  · intro x p k hwaiter hfol
    rcases waitArg_cases harg with ⟨i, heq⟩ | ⟨y, fp, heq⟩
    · rw [heq] at hwaiter
      cases hwaiter
    · rw [heq] at hwaiter hwaited hpc
      cases hwaiter
      rcases waited_helper_done hwaited with ⟨pcd, hset, hdone⟩
      rcases hfol with ⟨q, g, hthread, hfollows⟩
      rw [hset, List.getElem?_set] at hthread
      by_cases hq : t = q
      · rw [if_pos hq] at hthread
        split at hthread
        · exact hdone x g p k (Option.some.inj hthread) hfollows
        · cases hthread
      · rw [if_neg hq] at hthread
        exact hq (hcontrol.threads.helper_unique hpc hthread)

theorem quiet_reaps_nothing {a : Action} (hcalls : ¬ Calls a) :
    forall q t, a ≠ .waitpid 0 t (.reaped q) := by
  intro q t heq
  rw [heq] at hcalls
  exact hcalls rfl

/-- The step lemma for the invariant. -/
theorem RootStep.attended {v v' : View} {a : Action} (h : RootStep v a v')
    (hatt : Attended v) (hk : Kernel v) (hcontrol : Control v.mem)
    (hsafe : ReapsByPid v a) : Attended v' := by
  have hstep := h
  by_cases hcalls : Calls a
  · cases h with
    | foreign extra hf => exact absurd hf hcalls.not_foreign
    | forkFailed hpc hcaller hchild =>
        rename_i t pc caller out
        rcases forkReturned_move hcaller t v.pipes.length (-1) out with
          ⟨pc', hthreads, hmove⟩
        refine hstep.attended_of_fork hatt ?_ hpc hthreads hmove ?_
        · intro q t heq
          cases heq
        · intro hpid
          exact absurd rfl hpid
    | forked hpc hcaller hchild hpos hfree =>
        rename_i t pid pc caller out
        rcases forkReturned_move hcaller t v.pipes.length pid out with
          ⟨pc', hthreads, hmove⟩
        refine hstep.attended_of_fork hatt ?_ hpc hthreads hmove ?_
        · intro q t heq
          cases heq
        · intro _
          refine ⟨v.children.length, newChild v pid caller, ?_,
            Child.unreaped_of_alive rfl, rfl, rfl⟩
          unfold View.Has
          simp [newChild]
    | waitError hpc harg hnone hwaited =>
        rcases waited_move hwaited with ⟨pc', hthreads, hmove⟩
        refine hstep.attended_of_quiet hatt hpc hthreads hmove ?_ ?_
        · intro q t heq
          cases heq
        · intro i script' heq hscript' hrun
          rw [heq] at hwaited
          have hends := waited_reap_ends hwaited (by intro h; cases h) hscript'
          exact absurd hrun hends
    | waitNochange hpc harg hsome hnone hwaited =>
        rcases waited_move hwaited with ⟨pc', hthreads, hmove⟩
        refine hstep.attended_of_quiet hatt hpc hthreads hmove ?_ ?_
        · intro q t heq
          cases heq
        · intro i script' heq hscript' hrun
          rw [← waited_nochange_scripts hwaited]
          exact hscript'
    | waitReaped hpc harg hchild hselect hlife hwaited =>
        rename_i t j pc pid c0 st m
        have hpid : pid ≠ -1 := by
          intro hneg
          exact hsafe t j pc rfl hpc (hneg ▸ harg)
        have hown := hatt.reaps_own hk hcontrol hpc harg hpid hchild hselect
        exact hstep.attended_of_reap hatt hcontrol hpc harg hchild hown hwaited
    | _ => exact hcalls.elim
  · have hreaps := quiet_reaps_nothing hcalls
    cases h.quiet hcalls with
    | idle hmem => exact hstep.attended_of_idle hatt hmem hreaps
    | dumpLog ha hscripts hset hfds =>
        refine hstep.attended_of (L := fun _ => False) hatt ?_ ?_ ?_
        · intro q c t heq
          exact absurd heq (hreaps q t)
        · intro i script' fp hscript' hrun hfp _
          rw [hscripts] at hscript'
          exact Or.inr ⟨script', hscript', hrun, hfp, rfl, id⟩
        · intro x pid fp hfol _
          exact Or.inr ⟨following_append hset hfol, id⟩
    | move hforeign hpc hset hmove hfds hreap =>
        exact hstep.attended_of_quiet hatt hpc hset hmove hreaps
          (fun i _ heq => absurd heq (hreap i))

/-!
# The two counters
-/

structure Counter (f : WaitStatus -> Bool) (g : BurninScript -> UInt64) :
    Prop where
  found : forall name, g (BurninScript.found name) = 0
  launched : forall ret script, g (launchedSlot ret script) = g script
  delivered : forall data script, g (deliver script data) = g script
  status : forall st script, g (classify script (.status st)) =
    g script + UInt64.ofNat (if f st then 1 else 0)

theorem passCounter : Counter passes BurninScript.passCount where
  found := fun _ => rfl
  launched := fun _ _ => rfl
  delivered := fun _ _ => rfl
  status := by
    intro st script
    cases st with
    | signaled sig => simp [classify, passes]
    | exited code =>
        rw [classify_exited]
        by_cases hstop : code = 255
        · simp [passes, hstop]
        · by_cases hzero : code = 0
          · simp [passes, hzero]
          · simp [passes, hstop, hzero]

theorem failCounter : Counter fails BurninScript.failCount where
  found := fun _ => rfl
  launched := fun _ _ => rfl
  delivered := fun _ _ => rfl
  status := by
    intro st script
    cases st with
    | signaled sig => simp [classify, fails]
    | exited code =>
        rw [classify_exited]
        by_cases hstop : code = 255
        · simp [fails, hstop]
        · by_cases hzero : code = 0
          · simp [fails, hzero]
          · simp [fails, hstop, hzero]

def Counts (v : View) (f : WaitStatus -> Bool) (g : BurninScript -> UInt64) :
    Prop :=
  forall (i : Nat) script, v.mem.scripts[i]? = some script ->
    g script = UInt64.ofNat (v.reapedAs i f)

section Counting

variable {f : WaitStatus -> Bool} {g : BurninScript -> UInt64}

theorem Counter.move {scripts scripts' : List BurninScript}
    {label : MoveLabel} {pc pc' : PC} (hg : Counter f g)
    (h : Move scripts label pc scripts' pc') (hpc : pc.isReap = false) {i : Nat}
    {script' : BurninScript} (hscript : scripts'[i]? = some script') :
    exists script, scripts[i]? = some script ∧ g script' = g script := by
  cases h with
  | launched ret hold hidle hret =>
      rcases modify_cases hscript with ⟨old, hj, heq⟩
      refine ⟨old, hj, ?_⟩
      rw [heq]
      split
      · exact hg.launched ret old
      · rfl
  | delivered data hold =>
      rcases modify_cases hscript with ⟨old, hj, heq⟩
      refine ⟨old, hj, ?_⟩
      rw [heq]
      split
      · exact hg.delivered data old
      · rfl
  | classified res hold => cases hpc
  | _ => exact ⟨script', hscript, rfl⟩

theorem reapedAs_setLife (v v' : View) {p : Nat} {life : Life}
    (h : v'.children =
      v.children.modify p (Option.map (Child.setLife life))) (i : Nat)
    (f : WaitStatus -> Bool) :
    (forall c, v.Has p c ->
      v'.reapedAs i f + (if creditedCell i f (some c) then 1 else 0) =
        v.reapedAs i f +
          (if creditedCell i f (some (c.setLife life)) then 1 else 0)) ∧
      ((forall c, ¬ v.Has p c) -> v'.reapedAs i f = v.reapedAs i f) := by
  unfold View.reapedAs
  rw [h]
  constructor
  · intro c hc
    exact countP_modify hc _ _
  · intro hnone
    cases hcell : v.children[p]? with
    | none =>
        rw [List.modify_eq_self (List.getElem?_eq_none_iff.mp hcell)]
    | some cell =>
        cases cell with
        | some c => exact absurd hcell (hnone c)
        | none =>
            have hcount := countP_modify hcell (creditedCell i f)
              (Option.map (Child.setLife life))
            exact Nat.add_right_cancel hcount

theorem RootStep.reapedAs {v v' : View} {a : Action} (h : RootStep v a v')
    (hreap : forall q t, a ≠ .waitpid 0 t (.reaped q)) (i : Nat)
    (f : WaitStatus -> Bool) (hforeign : ¬ Foreign a) :
    v'.reapedAs i f = v.reapedAs i f := by
  cases h with
  | foreign extra hf => exact absurd hf hforeign
  | exit halive =>
      rename_i p status
      rcases reapedAs_setLife v { v with
        children := v.children.modify p
          (Option.map (Child.setLife (.zombie status))) } rfl i f with
        ⟨hsome, hnone⟩
      by_cases hchild : exists c, v.Has p c
      · rcases hchild with ⟨c, hc⟩
        have hcount := hsome c hc
        simp only [creditedCell, halive c hc, Child.setLife_life] at hcount
        exact hcount
      · exact hnone fun c hc => hchild ⟨c, hc⟩
  | forked hpc hcaller hchild hpos hfree =>
      simp [View.reapedAs, creditedCell]
  | waitReaped hpc harg hchild hselect hlife hwaited =>
      exact absurd rfl (hreap _ _)
  | _ => rfl

theorem callerAt_not_reap {m : Memory} {pc : PC} {caller : Caller}
    (h : callerAt m pc = some caller) : pc.isReap = false := by
  cases pc <;> first | rfl | cases h

theorem not_isReap {pc : PC} (h : forall i, pc ≠ .reap i) :
    pc.isReap = false := by
  cases pc with
  | reap i => exact absurd rfl (h i)
  | _ => rfl

theorem waitError_not_reap {v : View} {t : Nat} {pc : PC} {pid : Int}
    (hatt : Attended v) (hcontrol : Control v.mem)
    (hsafe : HarmlessView v (.waitpid 0 t .error))
    (hpc : v.mem.threads[t]? = some pc) (harg : waitArg v.mem pc = some pid)
    (hnone : forall q c, v.Has q c -> ¬ c.SelectedBy pid) :
    pc.isReap = false := by
  by_cases hpid : pid = -1
  · subst hpid
    cases hreap : pc.isReap with
    | false => rfl
    | true =>
        rcases (hsafe pc hpc harg).right hreap with ⟨q, c, hc, hsel⟩
        exact absurd hsel (hnone q c hc)
  · rcases hatt.waiter hcontrol hpc harg hpid with
      ⟨caller, _, q, c, hc, hun, _, heq⟩
    exact absurd ⟨hun, Or.inr (Or.inr heq)⟩ (hnone q c hc)

theorem Counts.waitReaped {v : View} (hcounts : Counts v f g)
    (hg : Counter f g) {t j : Nat} {pc : PC} {pid : Int} {c : Child}
    {st : WaitStatus} {m : Memory} (harg : waitArg v.mem pc = some pid)
    (hchild : v.Has j c) (hown : waiterAt pc = some c.caller)
    (hlife : c.life = .zombie st)
    (hwaited : waited v.mem t (.status st) pc = some m) :
    Counts
      { v with
        mem := m
        children := v.children.modify j
          (Option.map (Child.setLife (.reaped st))) } f g := by
  intro i script' hscript'
  have hcount := (reapedAs_setLife v { v with
    mem := m
    children := v.children.modify j
      (Option.map (Child.setLife (.reaped st))) } rfl i f).left c hchild
  rw [creditedCell_reaped, creditedCell_zombie i f hlife,
    if_neg Bool.false_ne_true, Nat.add_zero] at hcount
  rw [hcount, UInt64.ofNat_add]
  rcases waitArg_cases harg with ⟨k, heq⟩ | ⟨x, fp, heq⟩
  · rw [heq] at hown hwaited
    rw [waited_reap hwaited] at hscript'
    rcases modify_cases hscript' with ⟨old, hold, hnew⟩
    rw [← hcounts i old hold, hnew]
    have hcaller : c.caller = .burnin k := (Option.some.inj hown).symm
    by_cases hki : k = i
    · rw [if_pos hki, hcaller, hki, hg.status]
      simp
    · rw [if_neg hki, hcaller]
      simp [hki]
  · rw [heq] at hown hwaited
    rw [waited_helper_scripts hwaited] at hscript'
    have hcaller : c.caller = .helper x := (Option.some.inj hown).symm
    rw [← hcounts i script' hscript', hcaller]
    simp

/-- The step lemma for a counter. -/
theorem RootStep.counts {v v' : View} {a : Action} (h : RootStep v a v')
    (hg : Counter f g) (hcounts : Counts v f g) (hatt : Attended v)
    (hk : Kernel v) (hcontrol : Control v.mem) (hsafe : HarmlessView v a)
    (hforeign : ¬ Foreign a) : Counts v' f g := by
  have hstep := h
  have hquiet : (forall q t, a ≠ .waitpid 0 t (.reaped q)) ->
      (forall (i : Nat) script', v'.mem.scripts[i]? = some script' ->
        exists script, v.mem.scripts[i]? = some script ∧
          g script' = g script) -> Counts v' f g := by
    intro hreap hscripts i script' hscript'
    rcases hscripts i script' hscript' with ⟨script, hscript, heq⟩
    rw [heq, hstep.reapedAs hreap i f hforeign]
    exact hcounts i script hscript
  have hmoved : forall {t : Nat} {label : MoveLabel} {pc pc' : PC},
      v.mem.threads[t]? = some pc -> pc.isReap = false ->
      Move v.mem.scripts label pc v'.mem.scripts pc' ->
      (forall q t, a ≠ .waitpid 0 t (.reaped q)) -> Counts v' f g := by
    intro t label pc pc' hpc hnot hmove hreap
    exact hquiet hreap fun i script' hscript' => hg.move hmove hnot hscript'
  have hsame : v'.mem.scripts = v.mem.scripts ->
      (forall q t, a ≠ .waitpid 0 t (.reaped q)) -> Counts v' f g := by
    intro hscripts hreap
    refine hquiet hreap fun i script' hscript' => ⟨script', ?_, rfl⟩
    rw [← hscripts]
    exact hscript'
  by_cases hcalls : Calls a
  · cases h with
    | foreign extra hf => exact absurd hf hforeign
    | forkFailed hpc hcaller hchild =>
        rcases forkReturned_move hcaller _ _ _ _ with ⟨pc', _, hmove⟩
        exact hmoved hpc (callerAt_not_reap hcaller) hmove
          (by intro q t heq; cases heq)
    | forked hpc hcaller hchild hpos hfree =>
        rcases forkReturned_move hcaller _ _ _ _ with ⟨pc', _, hmove⟩
        exact hmoved hpc (callerAt_not_reap hcaller) hmove
          (by intro q t heq; cases heq)
    | waitError hpc harg hnone hwaited =>
        have hnot := waitError_not_reap hatt hcontrol hsafe hpc harg hnone
        rcases waited_move hwaited with ⟨pc', _, hmove⟩
        exact hmoved hpc hnot hmove (by intro q t heq; cases heq)
    | waitNochange hpc harg hsome hnone hwaited =>
        exact hsame (waited_nochange_scripts hwaited)
          (by intro q t heq; cases heq)
    | waitReaped hpc harg hchild hselect hlife hwaited =>
        rename_i t j pc pid c0 st m
        have hpid : pid ≠ -1 := by
          intro hneg
          exact hsafe.reapsByPid hstep t j pc rfl hpc (hneg ▸ harg)
        have hown := hatt.reaps_own hk hcontrol hpc harg hpid hchild hselect
        exact hcounts.waitReaped hg harg hchild hown hlife hwaited
    | _ => exact hcalls.elim
  · have hreaps := quiet_reaps_nothing hcalls
    cases h.quiet hcalls with
    | idle hmem => exact hsame (by rw [hmem]) hreaps
    | dumpLog ha hscripts => exact hsame hscripts hreaps
    | move hown hpc hset hmove hfds hreap =>
        exact hmoved hpc (not_isReap hreap) hmove hreaps

end Counting

/-!
# Accounting over whole runs
-/

theorem attended_start (tests : List CString) :
    Attended (startView tests) where
  slot := by
    intro i script fp hscript hrun
    simp only [startView, List.getElem?_map, Option.map_eq_some_iff] at hscript
    rcases hscript with ⟨name, _hname, heq⟩
    rw [← heq] at hrun
    cases hrun
  helper := by
    intro x pid fp hfollow
    rcases hfollow with ⟨t, pc, hthread, hpc⟩
    cases t with
    | zero =>
        cases hthread
        rcases hpc with heq | heq <;> cases heq
    | succ t => cases hthread

theorem Counter.start {f : WaitStatus -> Bool} {g : BurninScript -> UInt64}
    (hg : Counter f g) (tests : List CString) :
    Counts (startView tests) f g := by
  intro i script hscript
  simp only [startView, List.getElem?_map, Option.map_eq_some_iff] at hscript
  rcases hscript with ⟨name, _hname, heq⟩
  rw [← heq, hg.found name]
  rfl

theorem Good.accounted {w : World} {v : View} (h : Good w v)
    (hpass : Counts v passes BurninScript.passCount)
    (hfail : Counts v fails BurninScript.failCount) : Accounted w := by
  intro m i script hmem hscript
  rw [h.view.mem_eq hmem] at hscript
  rw [h.reapedAs, h.reapedAs]
  exact ⟨hpass i script hscript, hfail i script hscript⟩

/-- In a run whose waits are harmless every state accounts for every result. -/
theorem accounted_run {pid : Nat} {tests : List CString} {acts : List Action}
    {w : World} (hrun : ExecRun (start pid tests) acts w)
    (hsafe : StepsMeet step (start pid tests) acts HarmlessWait) :
    Along step (start pid tests) acts Accounted := by
  have hgood := good_along (P := fun v => Attended v ∧
      Counts v passes BurninScript.passCount ∧
        Counts v fails BurninScript.failCount)
    ⟨attended_start tests, passCounter.start tests, failCounter.start tests⟩
    (by
      intro u v a v' hgood hP hsafe hroot hforeign
      rcases hP with ⟨hatt, hpass, hfail⟩
      have hk := hgood.owned.kernel
      have hview := hsafe.view hgood.view hforeign
      exact ⟨hroot.attended hatt hk hgood.control (hview.reapsByPid hroot),
        hroot.counts passCounter hpass hatt hk hgood.control hview hforeign,
        hroot.counts failCounter hfail hatt hk hgood.control hview hforeign⟩)
    hrun hsafe
  intro pre post t hacts hpre
  rcases hgood pre post t hacts hpre with ⟨v, hv, _, hpass, hfail⟩
  exact hv.accounted hpass hfail

def launchOk (i pid : Nat) : Action :=
  .forkCmd 0 0 (.burnin i) { child := some pid, fcntl := true, fdopen := true }

def launchFails (i : Nat) : Action :=
  .forkCmd 0 0 (.burnin i) { child := none, fcntl := true, fdopen := true }

/-- One pass in which the fork for script 0 fails, while the child of script 1 is still
running when its `waitpid` asks for any child, and then passes. -/
def onePassRun : List Action :=
  hardwareSetup ++
    [launchFails 0, launchOk 1 3, .execve 2 true, .visit 0 0, .visit 0 0, .fgets 0 0,
      .waitpid 0 0 .nochange, .visit 0 0, .exit 2 (.exited 0), .fgets 0 0,
      .waitpid 0 0 (.reaped 2), .visit 0 0]

theorem accounted_run_onePass :
    Along step (start 1 ["ecc".toList, "hpl".toList]) onePassRun Accounted :=
  accounted_run (w := _) ⟨rfl, by decide⟩ (stepsMeet_of_check (by decide))

/-- The fork for script 0 fails, and its `waitpid` takes the child of script 1,
which exited 1. -/
def stolenResultRun : List Action :=
  hardwareSetup ++
    [launchFails 0, launchOk 1 3, .execve 2 true, .visit 0 0,
      .exit 2 (.exited 1), .visit 0 0, .fgets 0 0, .waitpid 0 0 (.reaped 2),
      .visit 0 0, .fgets 0 0, .waitpid 0 0 .error, .visit 0 0]

/-- At the end of that pass script 1 has a pass, and script 0 has its failure. -/
theorem stolenResult_not_accounted :
    exists w m, ExecRun (start 1 ["ecc".toList, "hpl".toList]) stolenResultRun w ∧
      w.memory? 0 = some m ∧ mainPC m = some .sleep ∧
        m.scripts.map (fun script => (script.passCount, script.failCount)) =
          [(0, 1), (1, 0)] ∧
        w.reapedAs 0 fails = 0 ∧ w.reapedAs 1 fails = 1 ∧
          w.reapedAs 1 passes = 0 ∧ ¬ Accounted w := by
  refine ⟨_, _, ⟨rfl, by decide⟩, rfl, rfl, by decide, by decide, by decide,
    by decide, ?_⟩
  intro haccounted
  have hzero := (haccounted _ 0 _ rfl rfl).right
  exact absurd hzero (by decide)

end Scheduler
end Breakin
