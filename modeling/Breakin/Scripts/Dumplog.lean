import Mathlib.Logic.Function.Basic
import Breakin.Scripts.Hpl

/-!
# Dumping the logs

`dumplog.sh` looks for a USB device that can be mounted, writes a report to it and
unmounts it again.  Whatever is at `/var/snapshot` is removed behind it.
-/

namespace Breakin
namespace Scripts

open Foundation
open Foundation.Shell

/-!
# The machine
-/

inductive GlobPart where
  | one (c : Char)
  | any
  | range (lo hi : Char)

def GlobPart.takes : GlobPart -> Char -> Bool
  | .one c, d => c == d
  | .any, _ => true
  | .range lo hi, d => decide (lo ≤ d) && decide (d ≤ hi)

def matchesGlob (pattern : List GlobPart) (name : CString) : Bool :=
  decide (name.head? ≠ some '.') &&
    (decide (pattern.length = name.length) &&
      (pattern.zip name).all fun c => c.1.takes c.2)

structure KernelName (name : CString) : Prop extends IsField name where
  noSlash : '/' ∉ name

abbrev Files := CString -> Option (List Char)

/-- What `/bin/sh` is: `$(< file)` is the text of the file in `bash`, and empty in
`dash`, which finds no command in it. -/
inductive BinSh where
  | bash
  | dash
deriving DecidableEq

def BinSh.fileText : BinSh -> List Char -> CString
  | .bash, text => substituted text
  | .dash, _ => []

/-- What the script finds: its shell, the names in a directory, as `ls` orders them,
what `cat`, `ls -l` and the other commands print, which partitions can be mounted and
unmounted, how much of the `n`-th text of the report gets to a partition, if the file
can be opened, and which files `rm` can remove from one. -/
structure DumpHost where
  binSh : BinSh
  entries : CString -> List CString
  cat : CString -> List Char
  longListing : CString -> List Char
  output : CString -> List Char
  mounts : CString -> Bool
  unmounts : CString -> Bool
  stores : CString -> Nat -> Option Nat
  removes : CString -> CString -> Bool
  kernelNames : forall dir name, name ∈ entries dir -> KernelName name

/-- The variables of the script, what is mounted on `/var/snapshot`, the last one
first, and the files of the directory itself and of the partitions. -/
structure DumpVars where
  removable : CString
  devName : CString
  mounted : List CString
  snapshot : Bool
  files : Option CString -> Files

/-- What is stored of a text for the file system that is seen at `/var/snapshot`; the
directory itself is in memory. -/
def DumpHost.stored (host : DumpHost) (top : Option CString) (n : Nat)
    (text : List Char) : Option (List Char) :=
  match top with
  | none => some text
  | some dev => (host.stores dev n).map fun size => text.take size

def DumpHost.left (host : DumpHost) (top : Option CString) (files : Files) : Files :=
  match top with
  | none => fun _ => none
  | some dev => fun name => if host.removes dev name then none else files name

/-!
# The script
-/

def dumpName : CString := "breakin.dmp".toList

/-- A redirection of the `n`-th text, behind what is kept of the file. -/
def redirect (host : DumpHost) (kept : Option (List Char) -> List Char) (n : Nat)
    (text : List Char) : Command DumpVars := fun s =>
  let top := s.vars.mounted.head?
  let files := s.vars.files top
  match host.stored top n text with
  | none => .next { s with status := 1 }
  | some part =>
      .next
        { s with
          vars :=
            { s.vars with
              files := Function.update s.vars.files top
                (Function.update files dumpName
                  (some (kept (files dumpName) ++ part))) }
          status := if part = text then 0 else 1 }

/-- `> /var/snapshot/breakin.dmp` -/
def writeDump (host : DumpHost) : Nat -> List Char -> Command DumpVars :=
  redirect host fun _ => []

/-- `>> /var/snapshot/breakin.dmp` -/
def appendDump (host : DumpHost) : Nat -> List Char -> Command DumpVars :=
  redirect host fun old => old.getD []

def dumpTexts (host : DumpHost) : List (List Char) :=
  ["Breakin version: 2.2\n".toList,
    host.output "uname -a".toList,
    "==== breakin.dat ====\n".toList,
    host.cat "/var/run/breakin.dat".toList,
    "==== breakin.log ====\n".toList,
    host.cat "/var/log/breakin.log".toList,
    "==== syslog ====\n".toList,
    host.cat "/var/log/messages".toList,
    "==== cmdline ====\n".toList,
    host.cat "/proc/cmdline".toList,
    "==== cpuinfo ====\n".toList,
    host.cat "/proc/cpuinfo".toList,
    "==== partitions ====\n".toList,
    host.cat "/proc/partitions".toList,
    "==== PCI ====\n".toList,
    host.output "lspci -vv".toList,
    "==== dmi ====\n".toList,
    host.output "/usr/bin/dmidecode".toList]

def dumpTitle : List Char := "==== INFO ===\n".toList

/-- `mount /dev/${DEV_NAME} /var/snapshot` -/
def mountDev (host : DumpHost) : Command DumpVars := fun s =>
  if host.mounts s.vars.devName then
    .next
      { s with
        vars := { s.vars with mounted := s.vars.devName :: s.vars.mounted }
        status := 0 }
  else
    .next { s with status := 32 }

/-- `umount /var/snapshot` -/
def umountDev (host : DumpHost) : Command DumpVars := fun s =>
  match s.vars.mounted with
  | [] => .next { s with status := 32 }
  | dev :: rest =>
      if host.unmounts dev then
        .next { s with vars := { s.vars with mounted := rest }, status := 0 }
      else
        .next { s with status := 32 }

/-- `rm -rf /var/snapshot`; a directory something is mounted on stays. -/
def removeSnapshot (host : DumpHost) : Command DumpVars :=
  seq
    (assign fun v =>
      { v with
        files := Function.update v.files v.mounted.head?
          (host.left v.mounted.head? (v.files v.mounted.head?)) })
    (ifElse (fun s => s.vars.mounted.isEmpty)
      (assign fun v => { v with snapshot := false })
      (external fun _ => 1))

def mountError : List Char := "Mount error for found USB device.".toList

def foundAt (dev : CString) : List Char :=
  "USB snapshot device found at ".toList ++ dev ++ ".".toList

def dumpWritten : List Char :=
  "Data written to 'breakin.dmp', safe to remove USB device.".toList

def trymount (host : DumpHost) : Command DumpVars :=
  block
    [assign fun v => { v with devName := (words v.devName).headD [] },
      assign fun v => { v with snapshot := true },
      mountDev host,
      ifElse (fun s => s.status != 0)
        (block [echo fun _ => mountError, removeSnapshot host, external fun _ => 1])
        (block
          [echo fun v => foundAt v.devName,
            writeDump host 0 dumpTitle,
            turns ((dumpTexts host).zipIdx 1) fun text => appendDump host text.2 text.1,
            -- sync
            external fun _ => 0,
            umountDev host,
            removeSnapshot host,
            echo fun _ => dumpWritten,
            exit fun _ => 0])]

/-- `ls -1d` of the names in a directory that match a pattern -/
def listed (host : DumpHost) (dir : CString) (patterns : List (List GlobPart)) :
    List CString :=
  ((host.entries dir).filter fun name => patterns.any fun p => matchesGlob p name).map
    fun name => dir ++ '/' :: name

def basename (path : CString) : CString :=
  path.rtakeWhile fun c => c != '/'

def diskPatterns : List (List GlobPart) :=
  [[.one 's', .one 'd', .range 'a' 'z'], [.one 'h', .one 'd', .range 'a' 'z']]

def partitionPattern : List GlobPart :=
  [.any, .one 'd', .any, .range '0' '9']

/-- What a loop over the output of `ls -1d` goes through. -/
def looped (paths : List CString) : List CString :=
  words (substituted (streamOf paths))

def partitionTurn (host : DumpHost) (path : CString) : Command DumpVars :=
  block
    [assign fun v => { v with devName := substituted (lineOf (basename path)) },
      trymount host]

def partitionLoop (host : DumpHost) (disk : CString) : Command DumpVars :=
  forEach (looped (listed host disk [partitionPattern])) (partitionTurn host)

/-- `ls -l device | grep usb` -/
def grepUsb (host : DumpHost) (disk : CString) : UInt8 :=
  if (textLines (host.longListing (disk ++ "/device".toList))).any
      fun line => decide ("usb".toList <:+: line) then 0 else 1

def diskTurn (host : DumpHost) (disk : CString) : Command DumpVars :=
  block
    [assign fun v =>
        { v with
          removable := host.binSh.fileText (host.cat (disk ++ "/removable".toList)) },
      ifElse (fun s => s.vars.removable != "1".toList)
        (block
          [external fun _ => grepUsb host disk,
            ifElse (fun s => s.status != 0)
              -- continue
              (assign id)
              (partitionLoop host disk)])
        (partitionLoop host disk)]

def dumplog (host : DumpHost) : Command DumpVars :=
  block
    [forEach (looped (listed host "/sys/block".toList diskPatterns)) (diskTurn host),
      echo fun _ => "No USB device found.".toList,
      exit fun _ => 1]

def dumpStart (mounted : List CString) (snapshot : Bool)
    (files : Option CString -> Files) : ShState DumpVars where
  vars :=
    { removable := [], devName := [], mounted := mounted, snapshot := snapshot
      files := files }
  status := 0
  out := []

/-!
# What it is for
-/

def isStick (host : DumpHost) (disk : CString) : Bool :=
  host.binSh.fileText (host.cat (disk ++ "/removable".toList)) == "1".toList ||
    grepUsb host disk == 0

def partitionsOf (host : DumpHost) (disk : CString) : List CString :=
  (host.entries disk).filter (matchesGlob partitionPattern)

/-- The partitions of the sticks, in the order in which they are tried. -/
def candidates (host : DumpHost) : List CString :=
  ((listed host "/sys/block".toList diskPatterns).filter (isStick host)).flatMap
    (partitionsOf host)

def report (host : DumpHost) : List Char :=
  dumpTitle ++ (dumpTexts host).flatten

/-- The file system at `/var/snapshot` is emptied, as far as `rm` can. -/
def wiped (host : DumpHost) (mounted : List CString) (files : Option CString -> Files) :
    Option CString -> Files :=
  Function.update files mounted.head? (host.left mounted.head? (files mounted.head?))

/-- A file after one redirection that begins it and some that append to it; those that
cannot open it change nothing. -/
def dumpFile (old first : Option (List Char)) (more : List (Option (List Char))) :
    Option (List Char) :=
  let begun := first.or old
  let parts := more.filterMap id
  if parts = [] then begun else some (begun.getD [] ++ parts.flatten)

def storedTexts (host : DumpHost) (dev : CString)
    (texts : List (List Char × Nat)) : List (Option (List Char)) :=
  texts.map fun text => host.stored (some dev) text.2 text.1

def dumpedTexts (host : DumpHost) (dev : CString) (texts : List (List Char × Nat))
    (files : Option CString -> Files) : Option CString -> Files :=
  Function.update files (some dev)
    (Function.update (files (some dev)) dumpName
      (dumpFile (files (some dev) dumpName) (host.stored (some dev) 0 dumpTitle)
        (storedTexts host dev texts)))

def dumped (host : DumpHost) (dev : CString) (files : Option CString -> Files) :
    Option CString -> Files :=
  dumpedTexts host dev ((dumpTexts host).zipIdx 1) files

def StoresReport (host : DumpHost) (dev : CString) : Prop :=
  forall text n, (text, n) ∈ (dumpTitle :: dumpTexts host).zipIdx ->
    host.stored (some dev) n text = some text

theorem dumped_report {host : DumpHost} {dev : CString} (h : StoresReport host dev)
    (files : Option CString -> Files) :
    dumped host dev files (some dev) dumpName = some (report host) := by
  have htexts : (storedTexts host dev ((dumpTexts host).zipIdx 1)).filterMap id =
      dumpTexts host := by
    have hall : forall t, t ∈ (dumpTexts host).zipIdx 1 ->
        host.stored (some dev) t.2 t.1 = some t.1 := by
      intro t ht
      exact h t.1 t.2 (by rw [List.zipIdx_cons]; exact List.mem_cons_of_mem _ ht)
    unfold storedTexts
    rw [List.map_congr_left hall, List.filterMap_map]
    show ((dumpTexts host).zipIdx 1).filterMap (fun t => some t.1) = dumpTexts host
    rw [List.filterMap_eq_map', List.zipIdx_map_fst]
  have htitle := h dumpTitle 0 (by rw [List.zipIdx_cons]; exact List.mem_cons_self)
  unfold dumped dumpedTexts dumpFile
  rw [Function.update_self, Function.update_self, htexts, htitle, if_neg (by
    unfold dumpTexts
    exact List.cons_ne_nil _ _)]
  rfl

theorem dumpFile_snoc (old first : Option (List Char)) (more : List (Option (List Char)))
    (part : Option (List Char)) :
    dumpFile old first (more ++ [part]) =
      match part with
      | none => dumpFile old first more
      | some text => some ((dumpFile old first more).getD [] ++ text) := by
  unfold dumpFile
  rw [List.filterMap_append]
  cases part with
  | none =>
      have hnothing : [(none : Option (List Char))].filterMap id = [] := rfl
      rw [hnothing, List.append_nil]
  | some text =>
      show (if more.filterMap id ++ [text] = [] then _ else
        some ((first.or old).getD [] ++ (more.filterMap id ++ [text]).flatten)) = _
      rw [if_neg (by simp), List.flatten_append]
      dsimp only
      split
      · rename_i hnone
        rw [hnone]
        simp
      · simp

theorem wiped_twice (host : DumpHost) (mounted : List CString)
    (files : Option CString -> Files) :
    wiped host mounted (wiped host mounted files) = wiped host mounted files := by
  unfold wiped
  rw [Function.update_idem, Function.update_self]
  congr 1
  cases mounted.head? with
  | none => rfl
  | some dev =>
      funext name
      unfold DumpHost.left
      dsimp only
      split
      · rfl
      · rfl

/-!
# The commands
-/

structure AtSnapshot (mounted : List CString) (out : List (List Char))
    (files : Option CString -> Files) (s : ShState DumpVars) : Prop where
  mounted : s.vars.mounted = mounted
  out : s.out = out
  files : s.vars.files = files

section Commands

variable {host : DumpHost} {out : List (List Char)} {files : Option CString -> Files}
  {dev : CString} {mounted : List CString}

theorem keeps_quiet (code : UInt8) :
    Keeps (AtSnapshot mounted out files) (external fun _ => code)
      (AtSnapshot mounted out files) :=
  keeps_external fun _ hs => ⟨hs.mounted, hs.out, hs.files⟩

theorem keeps_removeSnapshot :
    Keeps (AtSnapshot mounted out files) (removeSnapshot host)
      (AtSnapshot mounted out (wiped host mounted files)) := by
  have hremove : Keeps (AtSnapshot mounted out files)
      (assign fun v =>
        { v with
          files := Function.update v.files v.mounted.head?
            (host.left v.mounted.head? (v.files v.mounted.head?)) })
      (AtSnapshot mounted out (wiped host mounted files)) := by
    refine keeps_assign fun s hs => ⟨hs.mounted, hs.out, ?_⟩
    show Function.update s.vars.files s.vars.mounted.head? _ = _
    rw [hs.mounted, hs.files]
    rfl
  refine hremove.seq (Keeps.ifElse ?_ ?_)
  · exact keeps_assign fun s hs => ⟨hs.left.mounted, hs.left.out, hs.left.files⟩
  · exact fun s hs => keeps_quiet 1 s hs.left

theorem keeps_redirect (kept : Option (List Char) -> List Char) (n : Nat)
    (text : List Char) :
    Keeps (AtSnapshot mounted out files) (redirect host kept n text)
      (AtSnapshot mounted out
        (match host.stored mounted.head? n text with
        | none => files
        | some part =>
            Function.update files mounted.head?
              (Function.update (files mounted.head?) dumpName
                (some (kept (files mounted.head? dumpName) ++ part))))) := by
  intro s hs
  unfold redirect
  dsimp only
  rw [hs.mounted, hs.files]
  cases host.stored mounted.head? n text with
  | none => exact ⟨_, rfl, hs.mounted, hs.out, hs.files⟩
  | some part => exact ⟨_, rfl, rfl, hs.out, rfl⟩

theorem keeps_writeDump :
    Keeps (AtSnapshot (dev :: mounted) out files) (writeDump host 0 dumpTitle)
      (AtSnapshot (dev :: mounted) out (dumpedTexts host dev [] files)) := by
  have hnext : (match host.stored (some dev) 0 dumpTitle with
      | none => files
      | some part =>
          Function.update files (some dev)
            (Function.update (files (some dev)) dumpName (some ([] ++ part)))) =
        dumpedTexts host dev [] files := by
    unfold dumpedTexts
    cases host.stored (some dev) 0 dumpTitle with
    | none =>
        show files = Function.update files (some dev)
          (Function.update (files (some dev)) dumpName (files (some dev) dumpName))
        rw [Function.update_eq_self, Function.update_eq_self]
    | some part => rfl
  rw [← hnext]
  exact keeps_redirect (fun _ => []) 0 dumpTitle

theorem keeps_appendDump (texts : List (List Char × Nat)) (text : List Char × Nat) :
    Keeps (AtSnapshot (dev :: mounted) out (dumpedTexts host dev texts files))
      (appendDump host text.2 text.1)
      (AtSnapshot (dev :: mounted) out
        (dumpedTexts host dev (texts ++ [text]) files)) := by
  have hnext : (match host.stored (some dev) text.2 text.1 with
      | none => dumpedTexts host dev texts files
      | some part =>
          Function.update (dumpedTexts host dev texts files) (some dev)
            (Function.update (dumpedTexts host dev texts files (some dev)) dumpName
              (some ((dumpedTexts host dev texts files (some dev) dumpName).getD [] ++
                part)))) =
        dumpedTexts host dev (texts ++ [text]) files := by
    unfold dumpedTexts
    have hmore : storedTexts host dev (texts ++ [text]) =
        storedTexts host dev texts ++ [host.stored (some dev) text.2 text.1] :=
      List.map_append
    rw [hmore, dumpFile_snoc]
    cases host.stored (some dev) text.2 text.1 with
    | none => rfl
    | some part =>
        simp only [Function.update_self, Function.update_idem]
  rw [← hnext]
  exact keeps_redirect (fun old => old.getD []) text.2 text.1

theorem keeps_report :
    Keeps (AtSnapshot (dev :: mounted) out (dumpedTexts host dev [] files))
      (turns ((dumpTexts host).zipIdx 1) fun text => appendDump host text.2 text.1)
      (AtSnapshot (dev :: mounted) out (dumped host dev files)) :=
  turns_keeps
    (R := fun done => AtSnapshot (dev :: mounted) out (dumpedTexts host dev done files))
    keeps_appendDump [] _

theorem keeps_umount :
    Keeps (AtSnapshot (dev :: mounted) out files) (umountDev host)
      (AtSnapshot (if host.unmounts dev then mounted else dev :: mounted) out files) := by
  intro s hs
  unfold umountDev
  rw [hs.mounted]
  cases hunmounts : host.unmounts dev with
  | true => exact ⟨_, if_pos hunmounts, rfl, hs.out, hs.files⟩
  | false =>
      exact ⟨_, if_neg (by rw [hunmounts]; exact Bool.false_ne_true), hs.mounted, hs.out,
        hs.files⟩

theorem keeps_say (text : List Char) :
    Keeps (AtSnapshot mounted out files) (echo fun _ => text)
      (AtSnapshot mounted (out ++ [text]) files) := by
  refine keeps_echo fun s hs => ⟨hs.mounted, ?_, hs.files⟩
  rw [← hs.out]

end Commands

/-!
# One partition
-/

structure Tries (dev : CString) (mounted : List CString) (out : List (List Char))
    (files : Option CString -> Files) (s : ShState DumpVars) : Prop where
  devName : s.vars.devName = dev
  clean : AtSnapshot mounted out files s

section Partition

variable {host : DumpHost} {out : List (List Char)} {files : Option CString -> Files}
  {dev : CString} {mounted : List CString}

theorem keeps_named (h : IsField dev) :
    Keeps (Tries dev mounted out files)
      (assign fun v => { v with devName := (words v.devName).headD [] })
      (Tries dev mounted out files) := by
  refine keeps_assign fun s hs => ⟨?_, hs.clean.mounted, hs.clean.out, hs.clean.files⟩
  show (words s.vars.devName).headD [] = dev
  rw [hs.devName, words_field h]
  rfl

theorem keeps_mkdir :
    Keeps (Tries dev mounted out files) (assign fun v => { v with snapshot := true })
      (Tries dev mounted out files) :=
  keeps_assign fun _ hs => ⟨hs.devName, hs.clean.mounted, hs.clean.out, hs.clean.files⟩

/-- A partition that cannot be mounted: the script goes on.  What was mounted before
is emptied. -/
theorem trymount_fails (h : IsField dev) (hmounts : host.mounts dev = false) :
    Keeps (Tries dev mounted out files) (trymount host)
      (AtSnapshot mounted (out ++ [mountError]) (wiped host mounted files)) := by
  have hmount : Keeps (Tries dev mounted out files) (mountDev host)
      fun s => AtSnapshot mounted out files s ∧ s.status = 32 := by
    intro s hs
    refine ⟨_, if_neg ?_, ⟨hs.clean.mounted, hs.clean.out, hs.clean.files⟩, rfl⟩
    rw [hs.devName, hmounts]
    exact Bool.false_ne_true
  have hreport : Keeps (AtSnapshot mounted out files)
      (block [echo fun _ => mountError, removeSnapshot host, external fun _ => 1])
      (AtSnapshot mounted (out ++ [mountError]) (wiped host mounted files)) :=
    keeps_block_cons (keeps_say mountError) (keeps_block_cons keeps_removeSnapshot
      (keeps_block_cons (keeps_quiet 1) keeps_block_nil))
  refine keeps_block_cons (keeps_named h) (keeps_block_cons keeps_mkdir
    (keeps_block_cons hmount (keeps_block_cons (Keeps.ifElse ?_ ?_) keeps_block_nil)))
  · intro s hs
    exact hreport s hs.left.left
  · rintro s ⟨⟨_, hstatus⟩, hzero⟩
    rw [hstatus] at hzero
    cases hzero

/-- What is mounted when the script has dumped to a partition. -/
def mountedAfter (host : DumpHost) (dev : CString) (mounted : List CString) :
    List CString :=
  if host.unmounts dev then mounted else dev :: mounted

/-- A partition that can be mounted: the script leaves. -/
theorem trymount_dumps (h : IsField dev) (hmounts : host.mounts dev = true) :
    Ends (Tries dev mounted out files) (trymount host) (fun _ => False) fun s =>
      s.status = 0 ∧
        AtSnapshot (mountedAfter host dev mounted) (out ++ [foundAt dev, dumpWritten])
          (wiped host (mountedAfter host dev mounted) (dumped host dev files)) s := by
  have hmount : Keeps (Tries dev mounted out files) (mountDev host)
      fun s => (s.vars.devName = dev ∧ AtSnapshot (dev :: mounted) out files s) ∧
        s.status = 0 := by
    intro s hs
    refine ⟨_, if_pos ?_, ⟨hs.devName, ?_, hs.clean.out, hs.clean.files⟩, rfl⟩
    · rw [hs.devName, hmounts]
    · show s.vars.devName :: s.vars.mounted = dev :: mounted
      rw [hs.devName, hs.clean.mounted]
  have hfound : Keeps
      (fun s => s.vars.devName = dev ∧ AtSnapshot (dev :: mounted) out files s)
      (echo fun v => foundAt v.devName)
      (AtSnapshot (dev :: mounted) (out ++ [foundAt dev]) files) := by
    refine keeps_echo fun s hs => ⟨hs.right.mounted, ?_, hs.right.files⟩
    rw [← hs.right.out, hs.left]
  have hend : Ends
      (AtSnapshot (mountedAfter host dev mounted) (out ++ [foundAt dev] ++ [dumpWritten])
        (wiped host (mountedAfter host dev mounted) (dumped host dev files)))
      (block [exit fun _ => 0]) (fun _ => False) fun s =>
        s.status = 0 ∧
          AtSnapshot (mountedAfter host dev mounted) (out ++ [foundAt dev, dumpWritten])
            (wiped host (mountedAfter host dev mounted) (dumped host dev files)) s := by
    refine ends_block_exit ?_
    intro s hs
    refine ⟨rfl, hs.mounted, ?_, hs.files⟩
    rw [hs.out, List.append_assoc]
    rfl
  have hdump := ends_block_cons hfound.ends (ends_block_cons keeps_writeDump.ends
    (ends_block_cons keeps_report.ends (ends_block_cons (keeps_quiet 0).ends
      (ends_block_cons keeps_umount.ends (ends_block_cons keeps_removeSnapshot.ends
        (ends_block_cons (keeps_say dumpWritten).ends hend))))))
  refine ends_block_cons (keeps_named h).ends (ends_block_cons keeps_mkdir.ends
    (ends_block_cons hmount.ends (ends_block_cons (Ends.ifElse ?_ ?_)
      fun _ hfalse => absurd hfalse not_false)))
  · rintro s ⟨⟨_, hzero⟩, hstatus⟩
    rw [hzero] at hstatus
    cases hstatus
  · intro s hs
    exact hdump s hs.left.left

end Partition

/-!
# Going through the disks
-/

theorem looped_eq {paths : List CString} (h : forall p, p ∈ paths -> IsField p) :
    looped paths = paths := by
  have hblank : forall c, (c == '\n') = true -> isIfs c = true := by
    intro c hc
    rw [beq_iff_eq.mp hc]
    decide
  unfold looped substituted
  rw [words_rdropWhile hblank]
  induction paths with
  | nil => rfl
  | cons p rest ih =>
      rw [List.forall_mem_cons] at h
      have hstream : streamOf (p :: rest) = p ++ '\n' :: streamOf rest := by
        simp [streamOf, lineOf]
      rw [hstream, words_field_sep h.left (by decide), ih h.right]

theorem basename_path (dir : CString) {name : CString} (h : '/' ∉ name) :
    basename (dir ++ '/' :: name) = name := by
  unfold basename List.rtakeWhile
  have hall : forall c, c ∈ name.reverse -> (c != '/') = true := by
    intro c hc
    rw [bne_iff_ne]
    rintro rfl
    exact h (List.mem_reverse.mp hc)
  rw [List.reverse_append, List.reverse_cons, List.append_assoc,
    List.takeWhile_append_of_pos hall]
  simp

theorem isField_path {dir name : CString} (hdir : forall c, c ∈ dir -> isIfs c = false)
    (h : IsField name) : IsField (dir ++ '/' :: name) where
  nonempty := by simp
  solid := by
    intro c hc
    rcases List.mem_append.mp hc with hfront | hback
    · exact hdir c hfront
    · rcases List.mem_cons.mp hback with rfl | hname
      · decide
      · exact h.solid c hname

theorem substituted_name {name : CString} (h : IsField name) :
    substituted (lineOf name) = name := by
  unfold substituted lineOf
  rw [List.rdropWhile_concat_pos _ _ _ (by decide), List.rdropWhile_eq_self_iff]
  intro hne hlast
  have hblank := h.solid _ (List.getLast_mem hne)
  rw [beq_iff_eq.mp hlast] at hblank
  cases hblank

section Search

variable {host : DumpHost} {mounted : List CString} {files : Option CString -> Files}

/-- What is left after `n` failed mounts: each of them empties what was mounted before
the script. -/
def afterFailures (host : DumpHost) (mounted : List CString)
    (files : Option CString -> Files) : Nat -> Option CString -> Files
  | 0 => files
  | _ + 1 => wiped host mounted files

theorem wiped_afterFailures (n : Nat) :
    wiped host mounted (afterFailures host mounted files n) =
      afterFailures host mounted files (n + 1) := by
  cases n with
  | zero => rfl
  | succ n => exact wiped_twice host mounted files

structure Tried (host : DumpHost) (mounted : List CString)
    (files : Option CString -> Files) (tried : List CString) (s : ShState DumpVars) :
    Prop where
  failed : forall p, p ∈ tried -> host.mounts p = false
  clean : AtSnapshot mounted (List.replicate tried.length mountError)
    (afterFailures host mounted files tried.length) s

def Found (host : DumpHost) (mounted : List CString) (files : Option CString -> Files)
    (s : ShState DumpVars) : Prop :=
  exists front dev rest, candidates host = front ++ dev :: rest ∧
    (forall p, p ∈ front -> host.mounts p = false) ∧ host.mounts dev = true ∧
      s.status = 0 ∧
        AtSnapshot (mountedAfter host dev mounted)
          (List.replicate front.length mountError ++ [foundAt dev, dumpWritten])
          (wiped host (mountedAfter host dev mounted)
            (dumped host dev (afterFailures host mounted files front.length))) s

def NotFound (host : DumpHost) (mounted : List CString)
    (files : Option CString -> Files) (s : ShState DumpVars) : Prop :=
  s.status = 1 ∧ (forall p, p ∈ candidates host -> host.mounts p = false) ∧
    AtSnapshot mounted (List.replicate (candidates host).length mountError ++
      ["No USB device found.".toList])
      (afterFailures host mounted files (candidates host).length) s

theorem partitionTurn_ends (disk : CString) {name : CString} (hname : KernelName name)
    {tried : List CString} (hcandidate : tried ++ [name] <+: candidates host) :
    Ends (Tried host mounted files tried) (partitionTurn host (disk ++ '/' :: name))
      (Tried host mounted files (tried ++ [name]))
      (fun s => Found host mounted files s ∨ NotFound host mounted files s) := by
  have hnamed : Keeps (Tried host mounted files tried)
      (assign fun v => { v with
        devName := substituted (lineOf (basename (disk ++ '/' :: name))) })
      fun s => (forall p, p ∈ tried -> host.mounts p = false) ∧
        Tries name mounted (List.replicate tried.length mountError)
          (afterFailures host mounted files tried.length) s := by
    refine keeps_assign fun s hs =>
      ⟨hs.failed, ?_, hs.clean.mounted, hs.clean.out, hs.clean.files⟩
    show substituted (lineOf (basename (disk ++ '/' :: name))) = name
    rw [basename_path disk hname.noSlash, substituted_name hname.toIsField]
  refine ends_block_cons hnamed.ends (ends_block_cons ?_ keeps_block_nil.ends)
  cases hmounts : host.mounts name with
  | false =>
      refine Keeps.ends ?_
      intro s hs
      rcases trymount_fails hname.toIsField hmounts s hs.right with ⟨t, ht, hclean⟩
      refine ⟨t, ht, ?_, ?_⟩
      · rw [List.forall_mem_append, List.forall_mem_singleton]
        exact ⟨hs.left, hmounts⟩
      · rw [wiped_afterFailures] at hclean
        rw [List.length_append, List.length_singleton, List.replicate_succ']
        exact hclean
  | true =>
      intro s hs
      rcases trymount_dumps hname.toIsField hmounts s hs.right with
        ⟨t, _, hfalse⟩ | ⟨t, ht, hstatus, hleft⟩
      · exact absurd hfalse not_false
      · rcases hcandidate with ⟨rest, hrest⟩
        rw [List.append_assoc] at hrest
        exact Or.inr ⟨t, ht, Or.inl ⟨tried, name, rest, hrest.symm, hs.left, hmounts,
          hstatus, hleft⟩⟩

theorem listed_partitions (host : DumpHost) (disk : CString) :
    listed host disk [partitionPattern] =
      (partitionsOf host disk).map fun name => disk ++ '/' :: name := by
  have hone : (fun name => [partitionPattern].any fun p => matchesGlob p name) =
      matchesGlob partitionPattern := by
    funext name
    exact Bool.or_false _
  unfold listed partitionsOf
  rw [hone]

theorem partitionLoop_ends {disk : CString} (hdisk : IsField disk) {tried : List CString}
    (hcandidates : tried ++ partitionsOf host disk <+: candidates host) :
    Ends (Tried host mounted files tried) (partitionLoop host disk)
      (Tried host mounted files (tried ++ partitionsOf host disk))
      (fun s => Found host mounted files s ∨ NotFound host mounted files s) := by
  have hkernel : forall name, name ∈ partitionsOf host disk -> KernelName name :=
    fun name hname => host.kernelNames disk name (List.mem_of_mem_filter hname)
  have hfields : forall p, p ∈ (partitionsOf host disk).map (fun name => disk ++ '/' :: name) ->
      IsField p := by
    intro p hp
    rcases List.mem_map.mp hp with ⟨name, hname, rfl⟩
    exact isField_path hdisk.solid (hkernel name hname).toIsField
  unfold partitionLoop
  rw [listed_partitions, looped_eq hfields, forEach_map]
  have hloop := @forEach_ends DumpVars CString
    (fun done => Tried host mounted files (tried ++ done))
    (fun s => Found host mounted files s ∨ NotFound host mounted files s)
    (fun name => partitionTurn host (disk ++ '/' :: name)) (partitionsOf host disk) ?_ ?_
  · rw [List.append_nil] at hloop
    exact hloop
  · intro s hs
    exact ⟨hs.failed, hs.clean.mounted, hs.clean.out, hs.clean.files⟩
  · intro before name hbefore
    have hname : name ∈ partitionsOf host disk := hbefore.subset (by simp)
    rw [← List.append_assoc]
    apply partitionTurn_ends disk (hkernel name hname)
    rw [List.append_assoc]
    exact ((List.prefix_append_right_inj tried).mpr hbefore).trans hcandidates

def candidatesOn (host : DumpHost) (disks : List CString) : List CString :=
  (disks.filter (isStick host)).flatMap (partitionsOf host)

theorem candidatesOn_concat (host : DumpHost) (disks : List CString) (disk : CString) :
    candidatesOn host (disks ++ [disk]) =
      candidatesOn host disks ++ if isStick host disk then partitionsOf host disk else [] := by
  unfold candidatesOn
  rw [List.filter_append, List.flatMap_append]
  cases hstick : isStick host disk with
  | true => simp [hstick]
  | false => simp [hstick]

theorem diskTurn_ends {disk : CString} (hdisk : IsField disk) {tried : List CString}
    (hcandidates : (tried ++ if isStick host disk then partitionsOf host disk else []) <+:
      candidates host) :
    Ends (Tried host mounted files tried) (diskTurn host disk)
      (Tried host mounted files (tried ++ if isStick host disk then partitionsOf host disk else []))
      (fun s => Found host mounted files s ∨ NotFound host mounted files s) := by
  have hremovable : Keeps (Tried host mounted files tried)
      (assign fun v =>
        { v with removable := host.binSh.fileText (host.cat (disk ++ "/removable".toList)) })
      fun s => Tried host mounted files tried s ∧
        s.vars.removable = host.binSh.fileText (host.cat (disk ++ "/removable".toList)) :=
    keeps_assign fun s hs =>
      ⟨⟨hs.failed, hs.clean.mounted, hs.clean.out, hs.clean.files⟩, rfl⟩
  have hloop : isStick host disk = true ->
      Ends (Tried host mounted files tried) (partitionLoop host disk)
        (Tried host mounted files
          (tried ++ if isStick host disk then partitionsOf host disk else []))
        (fun s => Found host mounted files s ∨ NotFound host mounted files s) := by
    intro hstick
    rw [hstick] at hcandidates ⊢
    exact partitionLoop_ends hdisk hcandidates
  have hgrep : Keeps
      (fun s => (Tried host mounted files tried s ∧
        s.vars.removable = host.binSh.fileText (host.cat (disk ++ "/removable".toList))) ∧
          (s.vars.removable != "1".toList) = true)
      (external fun _ => grepUsb host disk)
      fun s => (Tried host mounted files tried s ∧ s.status = grepUsb host disk) ∧
        (host.binSh.fileText (host.cat (disk ++ "/removable".toList)) == "1".toList) = false := by
    refine keeps_external ?_
    rintro s ⟨⟨hs, hvalue⟩, hother⟩
    rw [hvalue] at hother
    refine ⟨⟨⟨hs.failed, hs.clean.mounted, hs.clean.out, hs.clean.files⟩, rfl⟩, ?_⟩
    simpa using hother
  refine ends_block_cons hremovable.ends (ends_block_cons (Ends.ifElse ?_ ?_)
    keeps_block_nil.ends)
  · refine ends_block_cons hgrep.ends (ends_block_cons (Ends.ifElse ?_ ?_)
      keeps_block_nil.ends)
    · -- neither removable nor on the USB
      refine Keeps.ends (keeps_assign ?_)
      rintro s ⟨⟨⟨hs, hstatus⟩, hfixed⟩, hnone⟩
      have hstick : isStick host disk = false := by
        rw [hstatus] at hnone
        unfold isStick
        rw [hfixed, Bool.false_or]
        simpa using hnone
      rw [hstick]
      show Tried host mounted files (tried ++ []) _
      rw [List.append_nil]
      exact ⟨hs.failed, hs.clean.mounted, hs.clean.out, hs.clean.files⟩
    · rintro s ⟨⟨⟨hs, hstatus⟩, _⟩, hfound⟩
      apply hloop _ s hs
      rw [hstatus] at hfound
      unfold isStick
      rw [Bool.or_eq_true]
      exact Or.inr (by simpa using hfound)
  · rintro s ⟨⟨hs, hvalue⟩, hone⟩
    apply hloop _ s hs
    rw [hvalue] at hone
    unfold isStick
    rw [Bool.or_eq_true]
    exact Or.inl (by simpa using hone)

theorem dumplog_ends (host : DumpHost) (mounted : List CString)
    (files : Option CString -> Files) :
    Ends (Tried host mounted files []) (dumplog host) (fun _ => False)
      (fun s => Found host mounted files s ∨ NotFound host mounted files s) := by
  have hsolid : ("/sys/block".toList.all fun c => !isIfs c) = true := by decide
  have hdir : forall c, c ∈ "/sys/block".toList -> isIfs c = false := by
    intro c hc
    have hplain := List.all_eq_true.mp hsolid c hc
    rwa [Bool.not_eq_true'] at hplain
  have hfields : forall p, p ∈ listed host "/sys/block".toList diskPatterns -> IsField p := by
    intro p hp
    rcases List.mem_map.mp hp with ⟨name, hname, rfl⟩
    have hkernel := host.kernelNames _ name (List.mem_of_mem_filter hname)
    exact isField_path hdir hkernel.toIsField
  have hloop : Ends (Tried host mounted files [])
      (forEach (looped (listed host "/sys/block".toList diskPatterns)) (diskTurn host))
      (Tried host mounted files (candidates host))
      (fun s => Found host mounted files s ∨ NotFound host mounted files s) := by
    rw [looped_eq hfields]
    refine @forEach_ends DumpVars CString
      (fun before => Tried host mounted files (candidatesOn host before)) _ (diskTurn host) _ ?_ ?_
    · intro s hs
      exact ⟨hs.failed, hs.clean.mounted, hs.clean.out, hs.clean.files⟩
    · intro before disk hbefore
      have hdisk := hfields disk (hbefore.subset (by simp))
      rw [candidatesOn_concat]
      apply diskTurn_ends hdisk
      rw [← candidatesOn_concat]
      rcases hbefore with ⟨rest, hrest⟩
      have hall : candidates host = candidatesOn host (before ++ [disk] ++ rest) := by
        rw [hrest]
        rfl
      rw [hall]
      refine ⟨candidatesOn host rest, ?_⟩
      unfold candidatesOn
      rw [List.filter_append _ rest, List.flatMap_append]
  have hecho : Keeps (Tried host mounted files (candidates host))
      (echo fun _ => "No USB device found.".toList) (fun s =>
        (forall p, p ∈ candidates host -> host.mounts p = false) ∧
          AtSnapshot mounted (List.replicate (candidates host).length mountError ++
            ["No USB device found.".toList])
            (afterFailures host mounted files (candidates host).length) s) := by
    intro s hs
    rcases keeps_say "No USB device found.".toList s hs.clean with ⟨t, ht, hclean⟩
    exact ⟨t, ht, hs.failed, hclean⟩
  refine ends_block_cons hloop (ends_block_cons hecho.ends (ends_block_exit ?_))
  intro s hs
  exact Or.inr ⟨rfl, hs.left, hs.right.mounted, hs.right.out, hs.right.files⟩

end Search

/-!
# The outcome
-/

/-- The first candidate that can be mounted gets what can be stored of the report; then
`rm -rf` empties what is seen at `/var/snapshot`: the partition itself when it could not
be unmounted, otherwise what was mounted before the script, if anything.  Each mount
that fails empties the latter, too.  Nothing else changes. -/
theorem dumplog_outcome (host : DumpHost) (mounted : List CString) (snapshot : Bool)
    (files : Option CString -> Files) :
    let result := dumplog host (dumpStart mounted snapshot files)
    let vars := result.final.vars
    let failures := ((candidates host).takeWhile fun p => !host.mounts p).length
    let errors := List.replicate failures mountError
    let before := afterFailures host mounted files failures
    match (candidates host).find? host.mounts with
    | none => result.exitStatus = 1 ∧
        result.final.out = errors ++ ["No USB device found.".toList] ∧
          vars.mounted = mounted ∧ vars.files = before
    | some dev => result.exitStatus = 0 ∧
        result.final.out = errors ++ [foundAt dev, dumpWritten] ∧
          vars.mounted = (if host.unmounts dev then mounted else dev :: mounted) ∧
            vars.files = wiped host vars.mounted (dumped host dev before) ∧
              (StoresReport host dev ->
                dumped host dev before (some dev) dumpName = some (report host)) := by
  have hstart : Tried host mounted files [] (dumpStart mounted snapshot files) :=
    ⟨fun _ hp => absurd hp List.not_mem_nil, rfl, rfl, rfl⟩
  rcases (dumplog_ends host mounted files).final hstart with ⟨hend, hstatus⟩
  have hfailed : forall {tried : List CString},
      (forall p, p ∈ tried -> host.mounts p = false) ->
        forall p, p ∈ tried -> (!host.mounts p) = true := by
    intro tried hall p hp
    rw [hall p hp]
    rfl
  intro result vars failures errors before
  rcases hend with ⟨front, dev, rest, hsplit, hfront, hmounts, hzero, hleft⟩ |
    ⟨hone, hnone, hleft⟩
  · have hfind : (candidates host).find? host.mounts = some dev := by
      rw [hsplit, List.find?_append, List.find?_eq_none.mpr]
      · rw [List.find?_cons_of_pos hmounts]
        rfl
      · intro p hp
        rw [hfront p hp]
        exact Bool.false_ne_true
    have htake : ((candidates host).takeWhile fun p => !host.mounts p) = front := by
      rw [hsplit, List.takeWhile_append_of_pos (hfailed hfront),
        List.takeWhile_cons_of_neg (by simp [hmounts]), List.append_nil]
    have hfailures : failures = front.length := congrArg List.length htake
    have hmounted : vars.mounted = mountedAfter host dev mounted := hleft.mounted
    rw [hfind]
    refine ⟨hstatus.trans hzero, ?_, hmounted, ?_, fun hstores => dumped_report hstores _⟩
    · show _ = List.replicate failures mountError ++ [foundAt dev, dumpWritten]
      rw [hfailures]
      exact hleft.out
    · show _ = wiped host vars.mounted
        (dumped host dev (afterFailures host mounted files failures))
      rw [hfailures, hmounted]
      exact hleft.files
  · have hfind : (candidates host).find? host.mounts = none := by
      rw [List.find?_eq_none]
      intro p hp
      rw [hnone p hp]
      exact Bool.false_ne_true
    have htake : ((candidates host).takeWhile fun p => !host.mounts p) = candidates host :=
      List.takeWhile_eq_self_iff.mpr (hfailed hnone)
    have hfailures : failures = (candidates host).length := congrArg List.length htake
    rw [hfind]
    refine ⟨hstatus.trans hone, ?_, hleft.mounted, ?_⟩
    · show _ = List.replicate failures mountError ++ ["No USB device found.".toList]
      rw [hfailures]
      exact hleft.out
    · show _ = afterFailures host mounted files failures
      rw [hfailures]
      exact hleft.files

def busyStick : DumpHost where
  binSh := .bash
  entries dir :=
    if dir = "/sys/block".toList then ["sdb".toList]
    else if dir = "/sys/block/sdb".toList then ["size".toList, "sdb1".toList]
    else []
  cat path := if path = "/sys/block/sdb/removable".toList then "1\n".toList else []
  longListing _ := []
  output _ := []
  mounts _ := true
  unmounts _ := false
  stores _ _ := some 4096
  removes _ _ := true
  kernelNames := by
    have hplain : forall name : CString, name ≠ [] -> (name.all Char.isAlphanum) = true ->
        KernelName name := by
      intro name hne hall
      rw [List.all_eq_true] at hall
      refine ⟨⟨hne, ?_⟩, fun hin => absurd (hall _ hin) (by decide)⟩
      intro c hc
      rw [Bool.eq_false_iff]
      intro hblank
      have hletter := hall c hc
      unfold isIfs at hblank
      simp only [Bool.or_eq_true, beq_iff_eq] at hblank
      rcases hblank with (rfl | rfl) | rfl
      · cases hletter
      · cases hletter
      · cases hletter
    intro dir name hname
    split at hname
    · rw [List.mem_singleton.mp hname]
      exact hplain _ (by decide) (by decide)
    · split at hname
      · rcases List.mem_cons.mp hname with rfl | hrest
        · exact hplain _ (by decide) (by decide)
        · rw [List.mem_singleton.mp hrest]
          exact hplain _ (by decide) (by decide)
      · cases hname

example : candidates busyStick = ["sdb1".toList] := by decide

example : candidates { busyStick with binSh := .dash } = [] := by decide

end Scripts
end Breakin
