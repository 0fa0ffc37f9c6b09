import Breakin.Foundation.CString
import Breakin.Foundation.Runs
import Breakin.Foundation.Pipe
import Breakin.Foundation.LineReader
import Breakin.Foundation.FileTail
import Breakin.Foundation.Buffer
import Breakin.Foundation.SlotTable
import Breakin.Foundation.Numbers
import Breakin.Foundation.Fields
import Breakin.Foundation.Strtok
import Breakin.Foundation.Printf
import Breakin.Foundation.ShellText
import Breakin.Foundation.Shell
import Breakin.Foundation.Windows
import Breakin.Foundation.Turns
import Breakin.Util.Trim
import Breakin.Util.TrimCells
import Breakin.Scheduler.State
import Breakin.Scheduler.FindTests
import Breakin.Scheduler.Message
import Breakin.Scheduler.Step
import Breakin.Scheduler.Effects
import Breakin.Scheduler.RootView
import Breakin.Scheduler.Moves
import Breakin.Scheduler.Control
import Breakin.Scheduler.Slots
import Breakin.Scheduler.Processes
import Breakin.Scheduler.Launches
import Breakin.Scheduler.Disabling
import Breakin.Scheduler.Accounting
import Breakin.Scheduler.Stuck
import Breakin.Scheduler.Output
import Breakin.Scheduler.Lines
import Breakin.Scripts.DeviceTests
import Breakin.Scripts.Mcelog
import Breakin.Stats.DumpStats
import Breakin.Scripts.Failid
import Breakin.Monitor.ErrorLog
import Breakin.Monitor.Syslog
import Breakin.Stats.StatFile
import Breakin.Dmi.Strings
import Breakin.Dmi.Table
import Breakin.Dmi.Decode
import Breakin.Foundation.Scratch
import Breakin.Stats.Disks
import Breakin.Stats.DiskFiles
import Breakin.Stats.DiskBench
import Breakin.Stats.Throughput
import Breakin.Stats.CpuUsage
import Breakin.Stats.Sensors
import Breakin.Stats.Nics
import Breakin.Stats.Percentages
import Breakin.Stats.Capacities
import Breakin.Foundation.Ledger
import Breakin.Scheduler.Descriptors
import Breakin.Foundation.Roots
import Breakin.Hpl.Grid
import Breakin.Hpl.Size
import Breakin.Foundation.Accesses
import Breakin.Foundation.SkipScan
import Breakin.Dmi.Scan
import Breakin.Util.TrimAccess
import Breakin.Util.TrimTouches
import Breakin.Dmi.Cells
import Breakin.Screen.Cells
import Breakin.Screen.Rows
import Breakin.Foundation.Refinement
import Breakin.Scheduler.Lifecycle
import Breakin.Scheduler.Passes
import Breakin.Scripts.Sourced
import Breakin.Stats.CpuInfo
import Breakin.Foundation.Words
import Breakin.Scripts.Hpl
import Breakin.Foundation.Options
import Breakin.Scheduler.Settings
import Breakin.Scheduler.Identity
import Breakin.Scripts.Startup
import Breakin.Foundation.Publish
import Breakin.Scripts.Ipmi
import Breakin.Scripts.Sdr
import Breakin.Scheduler.LogFile
import Breakin.Scheduler.LogdevFile
import Breakin.Scripts.Dumplog
import Breakin.Dmi.Firmware
