import Breakin.Foundation.FileTail
import Breakin.Foundation.Words
import Breakin.Hpl.Doubles
import Breakin.Hpl.Grid
import Breakin.Monitor.ErrorLog
import Breakin.Scripts.DeviceTests
import Breakin.Scripts.Sourced
import Breakin.Stats.CpuInfo

/-!
# The processor test

The script `hpl` writes the input file of HPL from the stats file, starts one process
for each processor, and ends with what `mpirun` says.  The log of a failed run goes
to the error log.
-/

namespace Breakin
namespace Scripts

open Foundation
open Foundation.Shell
open Monitor
open Scheduler
open Stats
open Util

/-- The machine the script runs on: what sourcing `breakin.dat` assigns, whether
`hpl` can be executed, and the status and the output of `mpirun`, by the words
behind `-np` and the input file. -/
structure HplHost where
  dat : Option (List (CString × CString))
  executable : Bool
  mpirun : List CString -> CString -> UInt8 × List Char

def substituted (output : List Char) : List Char :=
  output.rdropWhile fun c => c == '\n'

def calledWith (prog : CString -> Option CString) (text : CString) : CString :=
  match words text with
  | [] => []
  | argv1 :: _ => substituted ((prog argv1).getD [])

def hplDatText (n grid : CString) : CString :=
  streamOf
    ["HPLinpack benchmark input file".toList,
      "Innovative Computing Laboratory, University of Tennessee".toList,
      "HPL.out      output file name (if any)".toList,
      "6            device out (6=stdout,7=stderr,file)".toList,
      "1            # of problems sizes (N)".toList,
      n ++ "         Ns".toList,
      "1            # of NBs".toList,
      "128    \tNBs".toList,
      "0            PMAP process mapping (0=Row-,1=Column-major)".toList,
      "1            # of process grids (P x Q)".toList,
      grid,
      "16.0         threshold".toList,
      "1            # of panel fact".toList,
      "2            PFACTs (0=left, 1=Crout, 2=Right)".toList,
      "1            # of recursive stopping criterium".toList,
      "4            NBMINs (>= 1)".toList,
      "1            # of panels in recursion".toList,
      "2            NDIVs".toList,
      "1            # of recursive panel fact.".toList,
      "1            RFACTs (0=left, 1=Crout, 2=Right)".toList,
      "1            # of broadcast".toList,
      "1            BCASTs (0=1rg,1=1rM,2=2rg,3=2rM,4=Lng,5=LnM)".toList,
      "1            # of lookahead depth".toList,
      "1            DEPTHs (>=0)".toList,
      "2            SWAP (0=bin-exch,1=long,2=mix)".toList,
      "64           swapping threshold".toList,
      "0            L1 in (0=transposed,1=no-transposed) form".toList,
      "0            U  in (0=transposed,1=no-transposed) form".toList,
      "1            Equilibration (0=no,1=yes)".toList,
      "8            memory alignment in double (> 0)".toList]

/-- The words of `CPU_QTY`, and the input file that the script writes. -/
def HplHost.np (host : HplHost) : List CString :=
  words (valueOf "CPU_QTY".toList (host.dat.getD []))

def HplHost.input (host : HplHost) : CString :=
  hplDatText
    (calledWith (fun argv1 => some (Hpl.hplCalcNDouble argv1))
      (valueOf "MEM_TOTAL".toList (host.dat.getD [])))
    (calledWith Hpl.hplCalcPq (valueOf "CPU_QTY".toList (host.dat.getD [])))

def HplHost.result (host : HplHost) : UInt8 × List Char :=
  host.mpirun host.np host.input

end Scripts
end Breakin
