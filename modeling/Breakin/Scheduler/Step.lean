import Breakin.Foundation.Runs
import Breakin.Scheduler.Message

/-!
# One step of the system

A step is taken by one thread of one process, or by the kernel.  The label of an
action carries every choice the code does not make: which system calls fail,
which process id the kernel hands out, which child `waitpid` selects.
-/

namespace Breakin
namespace Scheduler

open Foundation

/-!
# fork_cmd
-/

/-- The outcome of the system calls of `fork_cmd` in the calling process: the
process id from `fork` (`none` when it returns -1), and whether
`fcntl(F_SETFL)` and `fdopen` succeed. -/
structure ForkOutcome where
  child : Option Nat
  fcntl : Bool
  fdopen : Bool
deriving DecidableEq

/-- What `fork_cmd` gives back: the stream it returns, and the value it stored
through `returnpid`, if it came that far. -/
structure ForkReturn where
  fp : Option Nat
  stored : Option Int
deriving DecidableEq

/-- The part of `fork_cmd` below the child's block. -/
def forkTail (m : Memory) (pipe : Nat) (pid : Int) (out : ForkOutcome) :
    Memory × ForkReturn :=
  if out.fcntl then
    ({ m with fds := m.fds.erase (.writeEnd pipe) },
      { fp := if out.fdopen then some pipe else none, stored := some pid })
  else
    -- the early return: both ends of the pipe stay open
    (m, { fp := none, stored := none })

def Memory.goto (m : Memory) (t : Nat) (pc : PC) : Memory :=
  { m with threads := m.threads.set t pc }

def Memory.say (m : Memory) (calls : List LogCall) : Memory :=
  { m with log := m.log ++ calls }

def Memory.updateScript (m : Memory) (i : Nat)
    (f : BurninScript -> BurninScript) : Memory :=
  { m with scripts := m.scripts.modify i f }

def labelOf : Caller -> List LogCall
  | .helper .hardware => [.message "Starting hardware setup".toList]
  | .helper (.dumpLog _) => [.message "Dumping log to USB device".toList]
  | .burnin _ => []

/-- The end of a helper's loop.  `main` goes on to the burn-in tests. -/
def helperDone (m : Memory) (t : Nat) : Helper -> Memory
  | .hardware =>
      (m.say [.message "Starting burnin tests".toList]).goto t (.launch 0)
  | .dumpLog d => m.goto t (.helper (.dumpLog d) .done)

def launchedSlot (ret : ForkReturn) (script : BurninScript) : BurninScript :=
  { script with
    fpStdout := ret.fp
    pid := ret.stored.getD script.pid
    running := 1 }

/-- The return of `fork_cmd` into its caller. -/
def returnTo (m : Memory) (t : Nat) (ret : ForkReturn) : Caller -> Memory
  | .burnin i =>
      (m.updateScript i (launchedSlot ret)).goto t (.launch (i + 1))
  | .helper x =>
      match ret.fp with
      | none => helperDone m t x
      | some fp => m.goto t (.helper x (.drain (ret.stored.getD 0) fp))

def forkReturned (m : Memory) (t pipe : Nat) (pid : Int) (caller : Caller)
    (out : ForkOutcome) : Memory :=
  let r := forkTail m pipe pid out
  returnTo r.1 t r.2 caller

/-- The call of `fork_cmd` a thread is in front of. -/
def callerAt (m : Memory) : PC -> Option Caller
  | .launch i =>
      match m.scripts[i]? with
      | none => none
      | some script => if script.running = 0 then some (.burnin i) else none
  | .helper x .fork => some (.helper x)
  | _ => none

/-- The memory of the caller once the pipe is open. -/
def openPipe (m : Memory) (pipe : Nat) (caller : Caller) : Memory :=
  { m with
    log := m.log ++ labelOf caller
    fds := m.fds ++ [.readEnd pipe, .writeEnd pipe] }

/-- The copy that `fork` makes: the memory of the caller, and only the calling
thread, in front of `execve`. -/
def forkedChild (m : Memory) (pid parent pipe : Nat) (caller : Caller) :
    Process where
  pid := pid
  launched := some { parent := parent, caller := caller, out := pipe }
  life := .alive
  image := .breakin { m with threads := [.execve caller pipe] }

/-- The kernel hands out a process id that no unreaped process has. -/
def freshPid (w : World) (pid : Nat) : Bool :=
  pid != 0 && w.procs.all fun pr => pr.pid != pid || !decide pr.Unreaped

def World.memory? (w : World) (p : Nat) : Option Memory :=
  match w.procs[p]? with
  | some { life := .alive, image := .breakin m, .. } => some m
  | _ => none

def World.setImage (w : World) (p : Nat) (image : Image) : World :=
  { w with procs := w.procs.modify p fun pr => { pr with image := image } }

def World.setMemory (w : World) (p : Nat) (m : Memory) : World :=
  w.setImage p (.breakin m)

def World.setLife (w : World) (p : Nat) (life : Life) : World :=
  { w with procs := w.procs.modify p fun pr => { pr with life := life } }

def forkCmd (w : World) (p t : Nat) (m : Memory) (caller : Caller)
    (out : ForkOutcome) : Option World :=
  let pipe := w.pipes.length
  let m' := openPipe m pipe caller
  let opened := { w with pipes := w.pipes ++ [Pipe.empty] }
  match out.child with
  | none =>
      some (opened.setMemory p (forkReturned m' t pipe (-1) caller out))
  | some pid =>
      if freshPid w pid then
        let parent := opened.setMemory p (forkReturned m' t pipe pid caller out)
        some { parent with
          procs := parent.procs ++ [forkedChild m' pid p pipe caller] }
      else
        none

/-!
# waitpid
-/

/-- The result of `waitpid(pid, &status, WNOHANG)`: -1, 0, or the index of the
child it reaped. -/
inductive WaitResult where
  | error
  | nochange
  | reaped (j : Nat)
deriving DecidableEq

/-- Process `pr` is one of the unreaped children of `p` that `pid` selects.  All
children of breakin stay in its process group, so 0 selects as -1 does. -/
def Selects (p : Nat) (pid : Int) (pr : Process) : Prop :=
  pr.launched.map Launched.parent = some p ∧ pr.Unreaped ∧
    (pid = -1 ∨ pid = 0 ∨ (pr.pid : Int) = pid)

instance (p : Nat) (pid : Int) (pr : Process) : Decidable (Selects p pid pr) :=
  inferInstanceAs (Decidable (_ ∧ _ ∧ _))

def Life.zombie? : Life -> Option WaitStatus
  | .zombie status => some status
  | _ => none

def waitpidAllows (w : World) (p : Nat) (pid : Int) : WaitResult -> Bool
  | .error => w.procs.all fun pr => !decide (Selects p pid pr)
  | .nochange =>
      (w.procs.any fun pr => decide (Selects p pid pr)) &&
        w.procs.all fun pr =>
          !decide (Selects p pid pr) || pr.life.zombie?.isNone
  | .reaped j =>
      match w.procs[j]? with
      | none => false
      | some pr => decide (Selects p pid pr) && pr.life.zombie?.isSome

/-- The value of `pidstatus` after the call. -/
inductive WaitOutcome where
  | error
  | nochange
  | status (st : WaitStatus)
deriving DecidableEq

def waitOutcome (w : World) : WaitResult -> WaitOutcome
  | .error => .error
  | .nochange => .nochange
  | .reaped j =>
      match w.procs[j]? with
      | some { life := .zombie st, .. } => .status st
      | _ => .error

def World.afterWait (w : World) : WaitResult -> World
  | .reaped j =>
      match w.procs[j]? with
      | some { life := .zombie st, .. } => w.setLife j (.reaped st)
      | _ => w
  | _ => w

/-- What the poll loop does to the slot after `waitpid`. -/
def classify (script : BurninScript) : WaitOutcome -> BurninScript
  | .error =>
      { script with
        running := 0
        lastResult := 0
        passCount := script.passCount + 1 }
  | .nochange => script
  | .status (.signaled _) => { script with running := -1 }
  | .status (.exited code) =>
      if code = 255 then
        { script with
          running := -1
          lastResult := 0
          passCount := script.passCount + 1 }
      else if code = 0 then
        { script with
          running := 0
          lastResult := 0
          passCount := script.passCount + 1 }
      else
        { script with
          running := 0
          lastResult := 1
          failCount := script.failCount + 1 }

def classifyLog (script : BurninScript) : WaitOutcome -> List LogCall
  | .status (.signaled _) =>
      [.message ("Execution failed on '".toList ++ script.name ++
        "', disabling.".toList)]
  | .status (.exited code) =>
      if code = 255 then
        [.message ("Disabling burnin test '".toList ++ script.name ++
          "'".toList)]
      else
        []
  | _ => []

def closeRead (m : Memory) (fp : Nat) : Memory :=
  { m with fds := m.fds.erase (.readEnd fp) }

/-- The visit of slot `i` after `waitpid`: only a positive result closes the
stream. -/
def pollWaited (m : Memory) (t i : Nat) (script : BurninScript) (fp : Nat)
    (res : WaitOutcome) : Memory :=
  let closed :=
    match res with
    | .status _ => closeRead m fp
    | _ => m
  ((closed.say (classifyLog script res)).updateScript i
    fun sc => classify sc res).goto t (.poll (i + 1))

def helperFinished : Helper -> List LogCall
  | .hardware => [.message "Finished hardware setup".toList]
  | .dumpLog _ => []

def helperWaited (m : Memory) (t : Nat) (x : Helper) (pid : Int) (fp : Nat)
    (res : WaitOutcome) : Memory :=
  match res with
  | .nochange => m.goto t (.helper x (.drain pid fp))
  | _ => helperDone ((closeRead m fp).say (helperFinished x)) t x

def waitArg (m : Memory) : PC -> Option Int
  | .reap i =>
      match m.scripts[i]? with
      | some script => some script.pid
      | none => none
  | .helper _ (.reap pid _) => some pid
  | _ => none

def waited (m : Memory) (t : Nat) (res : WaitOutcome) : PC -> Option Memory
  | .reap i =>
      match m.scripts[i]? with
      | some script =>
          match script.fpStdout with
          | some fp => some (pollWaited m t i script fp res)
          | none => none
      | none => none
  | .helper x (.reap pid fp) => some (helperWaited m t x pid fp res)
  | _ => none

/-!
# Steps without a choice
-/

def pollError (script : BurninScript) : LogCall :=
  .message ("Error reading stdout from: ".toList ++ script.name ++ ['\n'])

/-- The loop test of the poll pass for slot `i`. -/
def pollVisit (m : Memory) (t i : Nat) : Memory :=
  match m.scripts[i]? with
  | none => m.goto t .sleep
  | some script =>
      if 0 < script.running then
        match script.fpStdout with
        | none => (m.say [pollError script]).goto t (.poll (i + 1))
        | some _ => m.goto t (.drain i)
      else
        m.goto t (.poll (i + 1))

def launchVisit (m : Memory) (t i : Nat) : Option Memory :=
  match m.scripts[i]? with
  | none => some (m.goto t (.poll 0))
  | some script =>
      if script.running = 0 then
        none
      else
        some (m.goto t (.launch (i + 1)))

def deliver (script : BurninScript) (line : List Char) : BurninScript :=
  { script with lastMsg := (pollLine script.name line).lastMsg }

def helperLine : Helper -> List Char -> LogCall
  | .hardware, line => .print (cstr line)
  | .dumpLog _, line => .message (cstr line)

def drainArg (m : Memory) : PC -> Option Nat
  | .drain i =>
      match m.scripts[i]? with
      | some script => script.fpStdout
      | none => none
  | .helper _ (.drain _ fp) => some fp
  | _ => none

/-- The thread after one `fgets` call of its drain loop. -/
def drained (m : Memory) (t : Nat) (line : Option (List Char)) :
    PC -> Option Memory
  | .drain i =>
      match m.scripts[i]?, line with
      | none, _ => none
      | some _, none => some (m.goto t (.reap i))
      | some script, some data =>
          some ((m.say (pollLine script.name data).logCalls).updateScript i
            fun sc => deliver sc data)
  | .helper x (.drain pid fp) =>
      match line with
      | none => some (m.goto t (.helper x (.reap pid fp)))
      | some data => some (m.say [helperLine x data])
  | _ => none

/-!
# Actions
-/

inductive Action where
  /-- A thread goes through `fork_cmd`. -/
  | forkCmd (p t : Nat) (caller : Caller) (out : ForkOutcome)
  /-- A forked child's `execve` replaces its program or returns -1. -/
  | execve (p : Nat) (ok : Bool)
  /-- A child whose `execve` failed goes through the rest of `fork_cmd`. -/
  | forkTail (p : Nat) (out : ForkOutcome)
  /-- The loop tests of `run_burnin_tests` and of the poll pass. -/
  | visit (p t : Nat)
  | fgets (p t : Nat)
  | waitpid (p t : Nat) (res : WaitResult)
  /-- The sleep at the end of a pass is over. -/
  | wake (p t : Nat)
  /-- F3 starts a `dump_log` thread in the process that started `main`. -/
  | dumpLog
  | write (p : Nat) (bytes : List Char)
  | exit (p : Nat) (status : WaitStatus)
deriving DecidableEq

def World.at? (w : World) (p t : Nat) : Option (Memory × PC) :=
  match w.memory? p with
  | none => none
  | some m =>
      match m.threads[t]? with
      | none => none
      | some pc => some (m, pc)

def stepFork (w : World) (p t : Nat) (caller : Caller) (out : ForkOutcome) :
    Option World :=
  match w.at? p t with
  | none => none
  | some (m, pc) =>
      if callerAt m pc = some caller then
        forkCmd w p t m caller out
      else
        none

def stepExecve (w : World) (p : Nat) (ok : Bool) : Option World :=
  match w.at? p 0 with
  | some (m, .execve caller pipe) =>
      if ok then
        some (w.setImage p .program)
      else
        some (w.setMemory p (m.goto 0 (.forkTail caller pipe)))
  | _ => none

/-- In the child `pid` is 0, and the pipe it inherited is the one its caller
opened. -/
def stepForkTail (w : World) (p : Nat) (out : ForkOutcome) : Option World :=
  match w.at? p 0 with
  | some (m, .forkTail caller pipe) =>
      some (w.setMemory p (forkReturned m 0 pipe 0 caller out))
  | _ => none

def stepVisit (w : World) (p t : Nat) : Option World :=
  match w.at? p t with
  | some (m, .launch i) => (launchVisit m t i).map (w.setMemory p)
  | some (m, .poll i) => some (w.setMemory p (pollVisit m t i))
  | _ => none

def stepFgets (w : World) (p t : Nat) : Option World :=
  match w.at? p t with
  | none => none
  | some (m, pc) =>
      match drainArg m pc with
      | none => none
      | some fp =>
          match w.pipes[fp]? with
          | none => none
          | some pipe =>
              match pipe.fgets BUFSIZ with
              | none => (drained m t none pc).map (w.setMemory p)
              | some (line, pipe') =>
                  (drained m t (some line) pc).map fun m' =>
                    { w.setMemory p m' with pipes := w.pipes.set fp pipe' }

def stepWaitpid (w : World) (p t : Nat) (res : WaitResult) : Option World :=
  match w.at? p t with
  | none => none
  | some (m, pc) =>
      match waitArg m pc with
      | none => none
      | some pid =>
          if waitpidAllows w p pid res then
            (waited m t (waitOutcome w res) pc).map fun m' =>
              (w.afterWait res).setMemory p m'
          else
            none

def stepWake (w : World) (p t : Nat) : Option World :=
  match w.at? p t with
  | some (m, .sleep) => some (w.setMemory p (m.goto t (.launch 0)))
  | _ => none

def stepDumpLog (w : World) : Option World :=
  match w.memory? 0 with
  | none => none
  | some m =>
      some (w.setMemory 0
        { m with
          threads := m.threads ++
            [.helper (.dumpLog m.threads.length) .fork] })

/-- Output goes to the pipe that became the child's standard output. -/
def stepWrite (w : World) (p : Nat) (bytes : List Char) : Option World :=
  match w.procs[p]? with
  | some { life := .alive, launched := some l, .. } =>
      some { w with
        pipes := w.pipes.modify l.out fun pipe => pipe.write bytes }
  | _ => none

def stepExit (w : World) (p : Nat) (status : WaitStatus) : Option World :=
  match w.procs[p]? with
  | some { life := .alive, launched := some _, .. } =>
      some (w.setLife p (.zombie status))
  | _ => none

def step (w : World) : Action -> Option World
  | .forkCmd p t caller out => stepFork w p t caller out
  | .execve p ok => stepExecve w p ok
  | .forkTail p out => stepForkTail w p out
  | .visit p t => stepVisit w p t
  | .fgets p t => stepFgets w p t
  | .waitpid p t res => stepWaitpid w p t res
  | .wake p t => stepWake w p t
  | .dumpLog => stepDumpLog w
  | .write p bytes => stepWrite w p bytes
  | .exit p status => stepExit w p status

abbrev run : World -> List Action -> Option World :=
  runFrom step

end Scheduler
end Breakin
