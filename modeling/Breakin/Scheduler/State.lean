import Breakin.Foundation.Pipe

/-!
# The burn-in processes and their memory

The scheduler of breakin is one process that forks a child for every burn-in
script.  A world holds every process ever created, in order of creation, and
every pipe `fork_cmd` ever opened.  A forked child starts as a copy of its
caller, so the memory of the scheduler belongs to a process and not to the world.
-/

namespace Breakin
namespace Scheduler

open Foundation

/-- The default of the Makefile: `$(DESTDIR)/etc/breakin/tests`. -/
def BURNIN_SCRIPT_PATH : CString := "/usr/local/etc/breakin/tests".toList

def BUFSIZ : Nat := 8192

/-- `struct burnin_scripts_t`.  A stream is named by the pipe it reads. -/
structure BurninScript where
  name : CString
  path : CString
  lastMsg : CString
  lastResult : Int
  running : Int
  pid : Int
  fpStdout : Option Nat
  passCount : UInt64
  failCount : UInt64
deriving DecidableEq

def BurninScript.zero : BurninScript where
  name := []
  path := []
  lastMsg := []
  lastResult := 0
  running := 0
  pid := 0
  fpStdout := none
  passCount := 0
  failCount := 0

/-- A table entry as `find_burnin_tests` fills it. -/
def BurninScript.found (name : CString) : BurninScript :=
  { BurninScript.zero with
    name := name
    path := snprintf BUFSIZ (BURNIN_SCRIPT_PATH ++ '/' :: name) }

/-!
# Processes
-/

inductive WaitStatus where
  | exited (code : UInt8)
  | signaled (sig : Nat)
deriving DecidableEq

inductive Life where
  | alive
  | zombie (status : WaitStatus)
  | reaped (status : WaitStatus)
deriving DecidableEq

def Life.Unreaped : Life -> Prop
  | .reaped _ => False
  | _ => True

instance : DecidablePred Life.Unreaped
  | .alive => isTrue trivial
  | .zombie _ => isTrue trivial
  | .reaped _ => isFalse id

/-- The helper commands: `hardware.sh`, started by `main`, and `dumplog.sh`,
started by the `dump_log` thread with index `t`. -/
inductive Helper where
  | hardware
  | dumpLog (t : Nat)
deriving DecidableEq

/-- Which call of `fork_cmd` it is. -/
inductive Caller where
  | helper (x : Helper)
  | burnin (i : Nat)
deriving DecidableEq

/-- The loop of `main` or `dump_log` that follows a helper command, with its local
`pid` and stream. -/
inductive HelperPC where
  | fork
  | drain (pid : Int) (fp : Nat)
  | reap (pid : Int) (fp : Nat)
  | done
deriving DecidableEq

/-- Where a thread is.  `launch` is the loop of `run_burnin_tests`, `poll`,
`drain` and `reap` the visit of one slot in the poll pass of `main`: at the loop
test, at the `fgets` loop and at `waitpid`.  A forked child is at `execve`, and
in the rest of `fork_cmd` when that call has returned. -/
inductive PC where
  | launch (i : Nat)
  | poll (i : Nat)
  | drain (i : Nat)
  | reap (i : Nat)
  | sleep
  | helper (x : Helper) (pc : HelperPC)
  | execve (caller : Caller) (pipe : Nat)
  | forkTail (caller : Caller) (pipe : Nat)
deriving DecidableEq

/-- A descriptor opened by the `pipe` call of `fork_cmd`. -/
inductive Fd where
  | readEnd (pipe : Nat)
  | writeEnd (pipe : Nat)
deriving DecidableEq

/-- The output calls: `log_message`, `log_error`, and the plain `wprintw` that
shows the output of the hardware setup. -/
inductive LogCall where
  | message (text : CString)
  | error (text : CString)
  | print (text : CString)
deriving DecidableEq

/-- What `fork` copies: the globals, the descriptors and the running threads. -/
structure Memory where
  scripts : List BurninScript
  threads : List PC
  fds : List Fd
  log : List LogCall
deriving DecidableEq

inductive Image where
  | breakin (m : Memory)
  | program
deriving DecidableEq

/-- How a process came to be: by which process, by which call of `fork_cmd`, and
the pipe that became its standard output. -/
structure Launched where
  parent : Nat
  caller : Caller
  out : Nat
deriving DecidableEq

structure Process where
  pid : Nat
  launched : Option Launched
  life : Life
  image : Image
deriving DecidableEq

structure World where
  procs : List Process
  pipes : List Pipe
deriving DecidableEq

def Process.Unreaped (pr : Process) : Prop :=
  pr.life.Unreaped

instance (pr : Process) : Decidable pr.Unreaped :=
  inferInstanceAs (Decidable pr.life.Unreaped)

/-- The process that started `main`, in front of its first `fork_cmd`. -/
def start (pid : Nat) (tests : List CString) : World where
  procs :=
    [{ pid := pid
       launched := none
       life := .alive
       image := .breakin
        { scripts := tests.map BurninScript.found
          threads := [.helper .hardware .fork]
          fds := []
          log := [] } }]
  pipes := []

end Scheduler
end Breakin
