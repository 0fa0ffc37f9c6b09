import Breakin.Foundation.Ledger
import Breakin.Scheduler.Output

/-!
# The descriptors of the burn-in scripts

Every launch opens a pipe, and the scheduler is to keep its read end open exactly
as long as the script is marked running.  The slots of the table and the open
descriptors form a ledger; three branches of the code unbalance it for good: the
early return of `fork_cmd`, a failed `fdopen`, and a `waitpid` that returns -1.
-/

namespace Breakin
namespace Scheduler

open Foundation

def Fd.pipe : Fd -> Nat
  | .readEnd k => k
  | .writeEnd k => k

def burninPipe (n : Nat) : Action -> List Nat
  | .forkCmd p _ (.burnin _) _ => if p = 0 then [n] else []
  | _ => []

/-- The pipes `fork_cmd` opens for burn-in scripts along a run. -/
def burninPipes : World -> List Action -> List Nat
  | _, [] => []
  | w, a :: rest =>
      burninPipe w.pipes.length a ++
        match step w a with
        | none => []
        | some w' => burninPipes w' rest

def burninFds (opened : List Nat) (m : Memory) : List Fd :=
  m.fds.filter fun f => f.pipe ∈ opened

def runningStream (script : BurninScript) : Option Fd :=
  if script.running = 1 then script.fpStdout.map Fd.readEnd else none

def runningStreams (m : Memory) : List Fd :=
  m.scripts.filterMap runningStream

/-- The open descriptors are one read end for each running slot with a stream. -/
structure DescriptorsExact (opened : List Nat) (m : Memory) : Prop where
  streams : (burninFds opened m).Perm (runningStreams m)
  bound : (burninFds opened m).length ≤ m.scripts.length

/-- `P` holds at the end of every poll pass of the scheduler, with the run up to
there. -/
def AtPassEnds (w : World) (acts : List Action)
    (P : List Action -> Memory -> Prop) : Prop :=
  forall pre post u m, acts = pre ++ post -> run w pre = some u ->
    u.memory? 0 = some m -> mainPC m = some .sleep -> P pre m

def reapsSlot (w : World) (p t : Nat) : Bool :=
  match w.at? p t with
  | some (_, .reap _) => true
  | _ => false

/-- `fork_cmd` goes through to its last line with a stream, and no `waitpid` for a
slot returns -1. -/
def KeepsDescriptors (w : World) : Action -> Prop
  | .forkCmd p _ (.burnin _) out =>
      p = 0 -> out.fcntl = true ∧ out.fdopen = true
  | .waitpid p t .error => p = 0 -> reapsSlot w p t = false
  | _ => True

/-!
# The ledger of the table
-/

def ledgerOf (opened : List Nat) (m : Memory) : Ledger Fd where
  opened := burninFds opened m
  slots := m.scripts.map runningStream

theorem ledgerOf_holdings (opened : List Nat) (m : Memory) :
    (ledgerOf opened m).holdings = runningStreams m := by
  unfold Ledger.holdings ledgerOf runningStreams
  rw [List.filterMap_map]
  rfl

theorem descriptorsExact_iff_balanced {opened : List Nat} {m : Memory} :
    DescriptorsExact opened m <-> (ledgerOf opened m).Balanced := by
  constructor
  · intro h
    unfold Ledger.Balanced
    rw [ledgerOf_holdings]
    exact h.streams
  · intro h
    constructor
    · rw [← ledgerOf_holdings]
      exact h
    · have hlen := h.length_le
      simp only [ledgerOf, List.length_map] at hlen
      exact hlen

def KeepsView (v : View) : Action -> Prop
  | .forkCmd p _ (.burnin _) out =>
      p = 0 -> out.fcntl = true ∧ out.fdopen = true
  | .waitpid p t .error =>
      p = 0 -> forall i : Nat, v.mem.threads[t]? ≠ some (.reap i)
  | _ => True

theorem KeepsDescriptors.view_iff {w : World} {v : View} {a : Action}
    (hview : ViewOf w v) : KeepsDescriptors w a <-> KeepsView v a := by
  cases a with
  | forkCmd p t caller out => cases caller <;> exact Iff.rfl
  | waitpid p t res =>
      cases res with
      | nochange => exact Iff.rfl
      | reaped j => exact Iff.rfl
      | error =>
          have hat : reapsSlot w 0 t = false <->
              forall i : Nat, v.mem.threads[t]? ≠ some (.reap i) := by
            unfold reapsSlot World.at?
            simp only [hview.memory]
            cases hpc : v.mem.threads[t]? with
            | none => simp
            | some pc => cases pc <;> simp
          constructor
          · intro h hp
            subst hp
            exact hat.mp (h rfl)
          · intro h hp
            subst hp
            exact hat.mpr (h rfl)
  | _ => exact Iff.rfl

theorem burninPipe_mem {n k : Nat} {a : Action} (h : k ∈ burninPipe n a) :
    k = n ∧ ¬ Foreign a := by
  unfold burninPipe at h
  split at h
  · split at h
    · rename_i hp
      exact ⟨List.mem_singleton.mp h, fun hf => hf hp⟩
    · cases h
  · cases h

theorem quiet_keeps {a : Action} (hcalls : ¬ Calls a) (v : View) :
    KeepsView v a ∧ burninPipe v.pipes.length a = [] := by
  cases a with
  | forkCmd p t caller out =>
      have hp : p ≠ 0 := hcalls
      cases caller <;> simp [KeepsView, burninPipe, hp]
  | waitpid p t res =>
      have hp : p ≠ 0 := hcalls
      cases res <;> simp [KeepsView, burninPipe, hp]
  | _ => exact ⟨trivial, rfl⟩

theorem burninPipes_snoc {w u : World} {acts : List Action} (a : Action)
    (hrun : run w acts = some u) :
    burninPipes w (acts ++ [a]) =
      burninPipes w acts ++ burninPipe u.pipes.length a := by
  induction acts generalizing w with
  | nil =>
      cases hrun
      simp only [List.nil_append, burninPipes]
      cases step u a <;> simp
  | cons b rest ih =>
      rcases runFrom_cons_some.mp hrun with ⟨t, hstep, hrest⟩
      simp only [List.cons_append, burninPipes, hstep]
      rw [ih hrest, List.append_assoc]

/-!
# Whose pipe a descriptor belongs to
-/

/-- The streams of the slots are pipes in `opened`, and those of the helper loops
are not. -/
structure Books (opened : List Nat) (v : View) : Prop where
  pipes : forall k, k ∈ opened -> k < v.pipes.length
  fds : forall f, f ∈ v.mem.fds -> f.pipe < v.pipes.length
  stream : forall (i : Nat) script fp, v.mem.scripts[i]? = some script ->
    script.fpStdout = some fp -> fp ∈ opened
  helper : forall x pid fp, Following v.mem x pid fp ->
    fp < v.pipes.length ∧ fp ∉ opened

theorem books_start (tests : List CString) : Books [] (startView tests) where
  pipes := by
    intro k hk
    cases hk
  fds := by
    intro f hf
    cases hf
  stream := by
    intro i script fp hscript hfp
    have hnone := (slots_start tests).stream i script fp hscript hfp
    exact absurd hnone.left (Nat.not_lt_zero fp)
  helper := by
    intro x pid fp hfol
    have hnone := (slots_start tests).helper x pid fp hfol
    exact absurd hnone.left (Nat.not_lt_zero fp)

theorem RootStep.foreign_mem {v v' : View} {a : Action} (h : RootStep v a v')
    (hforeign : Foreign a) : v'.mem = v.mem := by
  cases h with
  | foreign extra hf hnone hlen => rfl
  | execve hp => rfl
  | write out hout => rfl
  | exit halive => rfl
  | dumpLog => exact hforeign.elim
  | _ => exact absurd rfl hforeign

theorem RootStep.burninPipe_lt {v v' : View} {a : Action}
    (h : RootStep v a v') {k : Nat} (hk : k ∈ burninPipe v.pipes.length a) :
    k < v'.pipes.length := by
  cases h with
  | foreign extra hf hnone hlen => exact absurd hf (burninPipe_mem hk).right
  | forkFailed hpc hcaller hchild =>
      rw [(burninPipe_mem hk).left]
      simp
  | forked hpc hcaller hchild hpos hfree =>
      rw [(burninPipe_mem hk).left]
      simp
  | _ => cases hk

theorem RootStep.following {v v' : View} {a : Action} (h : RootStep v a v')
    {x : Helper} {pid : Int} {fp : Nat} (hfol : Following v'.mem x pid fp) :
    Following v.mem x pid fp ∨
      fp = v.pipes.length ∧ v.pipes.length < v'.pipes.length ∧
        burninPipe v.pipes.length a = [] := by
  rcases h.move with ⟨hthreads, _⟩ | ⟨_, _, hthreads⟩ |
    ⟨t, label, pc, pc', hpc, hthreads, hmove, hlabel⟩
  · left
    unfold Following at hfol ⊢
    rw [← hthreads]
    exact hfol
  · exact Or.inl (following_append hthreads hfol)
  · rcases following_set hpc hthreads hfol with hold | ⟨g, hg, hfollows⟩
    · exact Or.inl hold
    · generalize v'.mem.scripts = scripts' at hmove
      cases hmove with
      | follow =>
          cases hg
          rcases hfollows with heq | heq <;> cases heq
          rcases hlabel _ _ _ rfl with ⟨hpipe, hlen, q, out, ha⟩
          right
          refine ⟨hpipe, by omega, ?_⟩
          rw [ha]
          rfl
      | unfollowed hplace =>
          rcases hplace with hdone | ⟨_, hlaunch⟩
          · rw [hdone] at hg
            cases hg
            rcases hfollows with heq | heq <;> cases heq
          · rw [hlaunch] at hg
            cases hg
      | helper hback =>
          cases hg
          exact Or.inl ⟨t, _, hpc, hback pid fp hfollows⟩
      | _ => cases hg

theorem RootStep.fds_lt {v v' : View} {a : Action} (h : RootStep v a v')
    (hfds : forall f, f ∈ v.mem.fds -> f.pipe < v.pipes.length) :
    forall f, f ∈ v'.mem.fds -> f.pipe < v'.pipes.length := by
  intro f hf
  have hgrow := h.children.left
  by_cases hforeign : Foreign a
  · rw [h.foreign_mem hforeign] at hf
    exact Nat.lt_of_lt_of_le (hfds f hf) hgrow
  · cases h.fdStep hforeign with
    | same hsame hlen hclosing =>
        rw [hsame] at hf
        exact Nat.lt_of_lt_of_le (hfds f hf) hgrow
    | closed fp herase hpipes hclosing =>
        rw [herase] at hf
        exact Nat.lt_of_lt_of_le (hfds f (List.mem_of_mem_erase hf)) hgrow
    | opened hlen hopened hclosing =>
        rw [hlen]
        rcases hopened.mem hf with hold | hread | hwrite
        · exact Nat.lt_succ_of_lt (hfds f hold)
        · rw [hread]
          exact Nat.lt_succ_self _
        · rw [hwrite]
          exact Nat.lt_succ_self _

theorem Books.step {opened : List Nat} {v v' : View} {a : Action}
    (h : Books opened v) (hroot : RootStep v a v') :
    Books (opened ++ burninPipe v.pipes.length a) v' where
  pipes := by
    intro k hk
    rcases List.mem_append.mp hk with hold | hnew
    · exact Nat.lt_of_lt_of_le (h.pipes k hold) hroot.children.left
    · exact hroot.burninPipe_lt hnew
  fds := hroot.fds_lt h.fds
  stream := by
    intro i script' fp hscript' hfp
    rcases hroot.move with ⟨_, hscripts⟩ | ⟨_, hscripts, _⟩ |
      ⟨t, label, pc, pc', hpc, hthreads, hmove, hlabel⟩
    · rw [hscripts] at hscript'
      exact List.mem_append_left _ (h.stream i script' fp hscript' hfp)
    · rw [hscripts] at hscript'
      exact List.mem_append_left _ (h.stream i script' fp hscript' hfp)
    · generalize v'.mem.scripts = scripts' at hmove hscript'
      cases hmove with
      | launched ret hold hidle hret =>
          rcases modify_cases hscript' with ⟨old, hslot, heq⟩
          rw [heq] at hfp
          split at hfp
          · rcases hlabel _ _ _ rfl with ⟨hpipe, _, q, out, ha⟩
            rw [ha, (hret fp hfp).left, hpipe]
            exact List.mem_append_right _ (by simp [burninPipe])
          · exact List.mem_append_left _ (h.stream i old fp hslot hfp)
      | delivered data hold =>
          rcases modify_cases hscript' with ⟨old, hslot, heq⟩
          rw [heq] at hfp
          apply List.mem_append_left _ (h.stream i old fp hslot _)
          split at hfp <;> exact hfp
      | classified res hold =>
          rcases modify_cases hscript' with ⟨old, hslot, heq⟩
          rw [heq] at hfp
          apply List.mem_append_left _ (h.stream i old fp hslot _)
          split at hfp
          · rw [classify_fpStdout] at hfp
            exact hfp
          · exact hfp
      | _ => exact List.mem_append_left _ (h.stream i script' fp hscript' hfp)
  helper := by
    intro x pid fp hfol
    rcases hroot.following hfol with hold | ⟨hnew, hlt, hnone⟩
    · rcases h.helper x pid fp hold with ⟨hfp, hnot⟩
      refine ⟨Nat.lt_of_lt_of_le hfp hroot.children.left, ?_⟩
      intro hmem
      rcases List.mem_append.mp hmem with hopened | hburnin
      · exact hnot hopened
      · have hlast := (burninPipe_mem hburnin).left
        omega
    · rw [hnew, hnone, List.append_nil]
      exact ⟨hlt, fun hmem => Nat.lt_irrefl _ (h.pipes _ hmem)⟩

/-!
# A step in the ledger
-/

theorem kept_of_same {opened opened' : List Nat} {m m' : Memory}
    (hfds : burninFds opened' m' = burninFds opened m)
    (hslots : m'.scripts.map runningStream = m.scripts.map runningStream) :
    Ledger.Kept (ledgerOf opened m) (ledgerOf opened' m') := by
  have hsame : ledgerOf opened' m' = ledgerOf opened m := by
    unfold ledgerOf
    rw [hfds, hslots]
  rw [hsame]
  exact Ledger.Kept.same

theorem slots_modify {scripts : List BurninScript} {i : Nat}
    {script : BurninScript} (h : scripts[i]? = some script)
    (f : BurninScript -> BurninScript) :
    (scripts.modify i f).map runningStream =
      (scripts.map runningStream).set i (runningStream (f script)) := by
  apply List.ext_getElem?
  intro j
  rw [List.getElem?_map, List.getElem?_modify, List.getElem?_set,
    List.getElem?_map]
  by_cases hij : i = j
  · subst hij
    have hlt : i < (scripts.map runningStream).length := by
      rw [List.length_map]
      exact (List.getElem?_eq_some_iff.mp h).choose
    rw [if_pos rfl, if_pos hlt, h]
    simp
  · simp [hij]

theorem Move.runningStreams {scripts scripts' : List BurninScript}
    {pc pc' : PC} (h : Move scripts none pc scripts' pc')
    (hreap : forall i, pc ≠ .reap i) :
    scripts'.map runningStream = scripts.map runningStream := by
  cases h with
  | delivered data hscript =>
      apply List.ext_getElem?
      intro j
      rw [List.getElem?_map, List.getElem?_modify, List.getElem?_map]
      cases scripts[j]? with
      | none => rfl
      | some script =>
          simp only [Option.map_some]
          split <;> rfl
  | classified res hscript => exact absurd rfl (hreap _)
  | _ => rfl

theorem burninFds_erase {opened : List Nat} {m m' : Memory} {f : Fd}
    (hfds : m'.fds = m.fds.erase f) :
    burninFds opened m' = (burninFds opened m).erase f := by
  unfold burninFds
  rw [hfds, List.erase_filter]

theorem burninFds_helper {opened : List Nat} {m m' : Memory} {n : Nat}
    (hfds : OpenedFds m.fds n m'.fds) (hn : n ∉ opened) :
    burninFds opened m' = burninFds opened m := by
  have hopened : (m.fds ++ [Fd.readEnd n, Fd.writeEnd n]).filter
      (fun f => decide (f.pipe ∈ opened)) = burninFds opened m := by
    rw [List.filter_append]
    simp [burninFds, Fd.pipe, hn]
  rcases hfds with heq | heq
  · unfold burninFds at hopened ⊢
    rw [heq, ← List.erase_filter, hopened]
    apply List.erase_of_not_mem
    simp [Fd.pipe, hn]
  · unfold burninFds at hopened ⊢
    rw [heq, hopened]

theorem forkReturned_burnin_fds {m : Memory} {t n i : Nat} {pid : Int}
    {out : ForkOutcome} (hfresh : forall f, f ∈ m.fds -> f.pipe < n) :
    (forkReturned (openPipe m n (.burnin i)) t n pid (.burnin i) out).fds =
      m.fds ++ if out.fcntl then [.readEnd n] else [.readEnd n, .writeEnd n] := by
  have hnew : Fd.writeEnd n ∉ m.fds := fun hf => Nat.lt_irrefl n (hfresh _ hf)
  unfold forkReturned forkTail
  split
  · change (m.fds ++ [Fd.readEnd n, Fd.writeEnd n]).erase (.writeEnd n) = _
    rw [List.erase_append_right _ hnew]
    simp
  · rfl

section Launch

variable {opened : List Nat} {m m' : Memory} {t n i : Nat} {pid : Int}
  {out : ForkOutcome} {script : BurninScript}

theorem launched_fds (opened : List Nat)
    (hm' : m' = forkReturned (openPipe m n (.burnin i)) t n pid (.burnin i) out)
    (hfresh : forall f, f ∈ m.fds -> f.pipe < n) :
    burninFds (opened ++ [n]) m' = burninFds opened m ++
      if out.fcntl then [.readEnd n] else [.readEnd n, .writeEnd n] := by
  have hold : m.fds.filter (fun f => decide (f.pipe ∈ opened ++ [n])) =
      burninFds opened m := by
    apply List.filter_congr
    intro f hf
    have hne : f.pipe ≠ n := Nat.ne_of_lt (hfresh f hf)
    simp [hne]
  rw [burninFds, hm', forkReturned_burnin_fds hfresh, List.filter_append, hold]
  cases out.fcntl <;> simp [Fd.pipe]

theorem launched_slots
    (hm' : m' = forkReturned (openPipe m n (.burnin i)) t n pid (.burnin i) out)
    (hscript : m.scripts[i]? = some script) :
    m'.scripts.map runningStream = (m.scripts.map runningStream).set i
      ((forkReturn n pid out).fp.map Fd.readEnd) := by
  rw [hm', forkReturned_burnin_scripts, openPipe_scripts, slots_modify hscript]
  rfl

/-- The launch of slot `i` lends it the read end of the new pipe, or leaves what
`fork_cmd` opened with nobody. -/
theorem launched_ledger
    (hm' : m' = forkReturned (openPipe m n (.burnin i)) t n pid (.burnin i) out)
    (hscript : m.scripts[i]? = some script) (hidle : script.running = 0)
    (hfresh : forall f, f ∈ m.fds -> f.pipe < n) :
    Ledger.Step (out.fcntl = true ∧ out.fdopen = true) (ledgerOf opened m)
      (ledgerOf (opened ++ [n]) m') := by
  have hfds := launched_fds opened hm' hfresh
  have hslots := launched_slots hm' hscript
  have hempty : (m.scripts.map runningStream)[i]? = some none := by
    rw [List.getElem?_map, hscript]
    simp [runningStream, hidle]
  have hunheld : (forkReturn n pid out).fp = none ->
      m'.scripts.map runningStream = m.scripts.map runningStream := by
    intro hnone
    rw [hslots, hnone]
    exact Ledger.set_same hempty
  cases hfcntl : out.fcntl with
  | false =>
      -- the early return: neither end is closed
      rw [hfcntl] at hfds
      right
      constructor
      · intro hkeep
        cases hkeep.left
      · exact Ledger.Leaked.unheld (.readEnd n) [.writeEnd n] hfds
          (hunheld (by simp [forkReturn, hfcntl]))
  | true =>
      rw [hfcntl] at hfds
      cases hfdopen : out.fdopen with
      | false =>
          right
          constructor
          · intro hkeep
            cases hkeep.right
          · exact Ledger.Leaked.unheld (.readEnd n) [] hfds
              (hunheld (by simp [forkReturn, hfcntl, hfdopen]))
      | true =>
          left
          constructor
          · exact ⟨rfl, rfl⟩
          · apply Ledger.Kept.lent i (.readEnd n) hempty hfds
            change m'.scripts.map runningStream = _
            rw [hslots]
            simp [forkReturn, hfcntl, hfdopen, ledgerOf]

end Launch

/-- The wait for slot `i`: a reaped child returns the read end, a -1 makes the
slot forget it. -/
theorem reaped_ledger {opened : List Nat} {m m' : Memory} {t i fp : Nat}
    {res : WaitResult} {out : WaitOutcome} {script : BurninScript}
    (hscript : m.scripts[i]? = some script) (hrunning : script.running = 1)
    (hfp : script.fpStdout = some fp) (hout : Outcomes res out)
    (hwaited : waited m t out (.reap i) = some m') :
    Ledger.Step (res ≠ .error) (ledgerOf opened m) (ledgerOf opened m') := by
  have hslot : (m.scripts.map runningStream)[i]? = some (some (.readEnd fp)) := by
    rw [List.getElem?_map, hscript]
    simp [runningStream, hrunning, hfp]
  have hfds := waited_fds hout hwaited
  have hslots : m'.scripts.map runningStream =
      (m.scripts.map runningStream).set i
        (runningStream (classify script out)) := by
    rw [waited_reap hwaited, slots_modify hscript]
  have hstopped : out ≠ .nochange ->
      runningStream (classify script out) = none := by
    intro hres
    unfold runningStream
    rw [if_neg]
    intro hone
    exact hres (classify_running hone)
  cases hout with
  | nochange =>
      left
      refine ⟨by simp, kept_of_same ?_ ?_⟩
      · unfold burninFds
        rw [hfds]
        rfl
      · rw [waited_nochange_scripts hwaited]
  | error =>
      right
      refine ⟨fun h => h rfl,
        Ledger.Leaked.dropped i (.readEnd fp) hslot ?_ ?_⟩
      · change burninFds opened m' = burninFds opened m
        unfold burninFds
        rw [hfds]
        rfl
      · rw [hstopped (by simp)] at hslots
        exact hslots
  | reaped j st =>
      left
      refine ⟨by simp, Ledger.Kept.returned i (.readEnd fp) hslot ?_ ?_⟩
      · apply burninFds_erase
        rw [hfds]
        simp [closing, hscript, hfp]
      · rw [hstopped (by simp)] at hslots
        exact hslots

theorem helperWaited_fds {opened : List Nat} {m m' : Memory} {t fp : Nat}
    {x : Helper} {pid : Int} {res : WaitResult} {out : WaitOutcome}
    (hnot : fp ∉ opened) (hout : Outcomes res out)
    (hwaited : waited m t out (.helper x (.reap pid fp)) = some m') :
    burninFds opened m' = burninFds opened m := by
  have hfds := waited_fds hout hwaited
  have hother : Fd.readEnd fp ∉ burninFds opened m := by
    simp [burninFds, Fd.pipe, hnot]
  cases hout with
  | nochange =>
      unfold burninFds
      rw [hfds]
      rfl
  | error => rw [burninFds_erase hfds, List.erase_of_not_mem hother]
  | reaped j st => rw [burninFds_erase hfds, List.erase_of_not_mem hother]

section Steps

variable {opened : List Nat} {v : View} {m' : Memory}

theorem fork_ledger {t : Nat} {pc : PC} {caller : Caller} {pid : Int}
    {out : ForkOutcome} (hbooks : Books opened v)
    (hcaller : callerAt v.mem pc = some caller)
    (hm' : m' = forkReturned (openPipe v.mem v.pipes.length caller) t
      v.pipes.length pid caller out) :
    Ledger.Step (KeepsView v (.forkCmd 0 t caller out)) (ledgerOf opened v.mem)
      (ledgerOf (opened ++ burninPipe v.pipes.length (.forkCmd 0 t caller out))
        m') := by
  rcases callerAt_some hcaller with ⟨i, script, _, heq, hscript, hidle⟩ |
    ⟨x, _, heq⟩
  · subst heq
    rcases launched_ledger hm' hscript hidle hbooks.fds with
      ⟨hkeep, hkept⟩ | ⟨hkeep, hleaked⟩
    · exact Or.inl ⟨fun _ => hkeep, hkept⟩
    · exact Or.inr ⟨fun h => hkeep (h rfl), hleaked⟩
  · subst heq
    have hnot : v.pipes.length ∉ opened :=
      fun hmem => Nat.lt_irrefl _ (hbooks.pipes _ hmem)
    have hfds := forkReturned_fds v.mem (.helper x) t v.pipes.length pid out
    rcases forkReturned_move hcaller t v.pipes.length pid out with
      ⟨pc', _, hmove⟩
    rw [← hm'] at hfds hmove
    left
    refine ⟨trivial, ?_⟩
    rw [show burninPipe v.pipes.length (.forkCmd 0 t (.helper x) out) = []
      from rfl, List.append_nil]
    apply kept_of_same (burninFds_helper hfds hnot)
    rw [hmove.helper_scripts]

theorem wait_ledger {t : Nat} {pc : PC} {pid : Int} {res : WaitResult}
    {out : WaitOutcome} (hcontrol : Control v.mem) (hbooks : Books opened v)
    (hpc : v.mem.threads[t]? = some pc) (harg : waitArg v.mem pc = some pid)
    (hout : Outcomes res out) (hwaited : waited v.mem t out pc = some m') :
    Ledger.Step (KeepsView v (.waitpid 0 t res)) (ledgerOf opened v.mem)
      (ledgerOf (opened ++ burninPipe v.pipes.length (.waitpid 0 t res))
        m') := by
  rw [show burninPipe v.pipes.length (.waitpid 0 t res) = [] from rfl,
    List.append_nil]
  rcases waitArg_cases harg with ⟨i, heq⟩ | ⟨x, fp, heq⟩
  · subst heq
    rcases hcontrol.reaping hpc harg with ⟨script, fp, hscript, hrun, hfp, _⟩
    rcases reaped_ledger hscript hrun hfp hout hwaited with
      ⟨hres, hkept⟩ | ⟨hres, hleaked⟩
    · left
      refine ⟨?_, hkept⟩
      cases hout with
      | error => exact absurd rfl hres
      | nochange => trivial
      | reaped j st => trivial
    · right
      rw [Classical.not_not.mp hres]
      exact ⟨fun h => h rfl i hpc, hleaked⟩
  · subst heq
    have hnot := (hbooks.helper x pid fp ⟨t, _, hpc, Or.inr rfl⟩).right
    left
    constructor
    · cases hout with
      | error =>
          intro _ i hreap
          rw [hpc] at hreap
          cases hreap
      | nochange => trivial
      | reaped j st => trivial
    · apply kept_of_same (helperWaited_fds hnot hout hwaited)
      rw [waited_helper_scripts hwaited]

end Steps

/-- Every step of the scheduler is a step of the ledger, and it keeps the ledger
exactly when it keeps the descriptors. -/
theorem RootStep.ledger {opened : List Nat} {v v' : View} {a : Action}
    (h : RootStep v a v') (hcontrol : Control v.mem) (hbooks : Books opened v) :
    Ledger.Step (KeepsView v a) (ledgerOf opened v.mem)
      (ledgerOf (opened ++ burninPipe v.pipes.length a) v'.mem) := by
  by_cases hcalls : Calls a
  · cases h with
    | foreign extra hf hnone hlen => exact absurd hf hcalls.not_foreign
    | forkFailed hpc hcaller hchild => exact fork_ledger hbooks hcaller rfl
    | forked hpc hcaller hchild hpos hfree =>
        exact fork_ledger hbooks hcaller rfl
    | waitError hpc harg hnone hwaited =>
        exact wait_ledger hcontrol hbooks hpc harg Outcomes.error hwaited
    | waitNochange hpc harg hsome hnone hwaited =>
        exact wait_ledger hcontrol hbooks hpc harg Outcomes.nochange hwaited
    | waitReaped hpc harg hchild hselect hlife hwaited =>
        exact wait_ledger hcontrol hbooks hpc harg (Outcomes.reaped _ _) hwaited
    | _ => exact hcalls.elim
  · rcases quiet_keeps hcalls v with ⟨hkeep, hnone⟩
    left
    refine ⟨hkeep, ?_⟩
    rw [hnone, List.append_nil]
    cases h.quiet hcalls with
    | idle hmem => exact kept_of_same (by rw [hmem]) (by rw [hmem])
    | dumpLog ha hscripts hthreads hfds =>
        exact kept_of_same (by rw [burninFds, hfds, burninFds]) (by rw [hscripts])
    | move hforeign hpc hthreads hmove hfds hreap =>
        exact kept_of_same (by rw [burninFds, hfds, burninFds])
          (hmove.runningStreams hreap)

/-!
# Every run
-/

theorem runningStreams_start (tests : List CString) :
    runningStreams (startView tests).mem = [] := by
  unfold runningStreams
  rw [List.filterMap_eq_nil_iff]
  intro script hscript
  rcases List.mem_map.mp hscript with ⟨name, _, heq⟩
  rw [← heq]
  rfl

theorem balanced_start (tests : List CString) :
    (ledgerOf [] (startView tests).mem).Balanced := by
  unfold Ledger.Balanced
  rw [ledgerOf_holdings, runningStreams_start]
  exact List.Perm.nil

theorem books_run {pid : Nat} {tests : List CString} {acts : List Action}
    {w : World} (hrun : run (start pid tests) acts = some w) :
    exists v, ViewOf w v ∧ Control v.mem ∧
      Books (burninPipes (start pid tests) acts) v ∧
      (ledgerOf (burninPipes (start pid tests) acts) v.mem).Sound ∧
      ((ledgerOf (burninPipes (start pid tests) acts) v.mem).Balanced <->
        StepsMeet step (start pid tests) acts KeepsDescriptors) := by
  refine runFrom_history (R := fun acts w => exists v, ViewOf w v ∧
      Control v.mem ∧ Books (burninPipes (start pid tests) acts) v ∧
      (ledgerOf (burninPipes (start pid tests) acts) v.mem).Sound ∧
      ((ledgerOf (burninPipes (start pid tests) acts) v.mem).Balanced <->
        StepsMeet step (start pid tests) acts KeepsDescriptors)) ?_ ?_ hrun
  · have hbalanced := balanced_start tests
    refine ⟨_, viewOf_start pid tests, control_start tests, books_start tests,
      hbalanced.symm.subperm, ?_⟩
    constructor
    · intro _ pre a post t hacts
      cases pre <;> cases hacts
    · intro _
      exact hbalanced
  · intro acts a t u hpre hbooks hstep
    rcases hbooks with ⟨v, hview, hcontrol, hbooks, hsound, hiff⟩
    rcases rootStep_of_step hview hcontrol.threads hstep with
      ⟨v', hview', hroot⟩
    have hpipes : burninPipes (start pid tests) (acts ++ [a]) =
        burninPipes (start pid tests) acts ++ burninPipe v.pipes.length a := by
      rw [burninPipes_snoc a hpre, hview.pipes]
    rcases (hroot.ledger hcontrol hbooks).sound hsound with ⟨hsound', hiff'⟩
    refine ⟨v', hview', hroot.control hcontrol, ?_, ?_, ?_⟩
    · rw [hpipes]
      exact hbooks.step hroot
    · rw [hpipes]
      exact hsound'
    · rw [hpipes, hiff', hiff, stepsMeet_snoc hpre,
        KeepsDescriptors.view_iff hview]

/-- At the end of a pass the descriptors are exact when every step of the run up
to there kept them, and only then: what was leaked is never closed. -/
theorem descriptorsExact_iff (pid : Nat) (tests : List CString)
    (acts : List Action) :
    AtPassEnds (start pid tests) acts fun pre m =>
      DescriptorsExact (burninPipes (start pid tests) pre) m <->
        StepsMeet step (start pid tests) pre KeepsDescriptors := by
  intro pre post u m hacts hrun hmem hsleep
  rcases books_run hrun with ⟨v, hview, _, _, _, hiff⟩
  rw [hview.mem_eq hmem, descriptorsExact_iff_balanced]
  exact hiff

/-- The fork for the only script fails: its stream is opened all the same, the
process id stored is -1, and `waitpid` finds no child. -/
def forkFailsRun : List Action :=
  hardwareSetup ++
    [launchFails 0, .visit 0 0, .visit 0 0, .fgets 0 0, .waitpid 0 0 .error,
      .visit 0 0]

theorem forkFails_leaks :
    ¬ AtPassEnds (start 1 ["hpl".toList]) forkFailsRun fun pre m =>
      DescriptorsExact (burninPipes (start 1 ["hpl".toList]) pre) m := by
  intro h
  have hexact := h forkFailsRun [] _ _ rfl rfl rfl rfl
  have hlen := hexact.streams.length_eq
  revert hlen
  decide

end Scheduler
end Breakin
