import Breakin.Foundation.Numbers
import Breakin.Foundation.SlotTable
import Breakin.Stats.DumpStats
import Breakin.Util.Trim

/-!
# The disks

`get_hd_info` lists the disks of the machine into `disk_info`, from the first slot
on.  It writes the name and the size of a slot, and leaves its performance.
-/

namespace Breakin
namespace Stats

open Foundation
open Util

def MAX_DISKS : Nat := 24

/-- What reading one word from a file meets: no file, no word in it, or a word. -/
inductive TokenFile where
  | unreadable
  | empty
  | token (word : CString)
deriving DecidableEq

/-- `read_string_from_file`: whether the file could be opened, and the caller's
buffer, which keeps its text when `fscanf` finds no word. -/
def readStringFromFile (file : TokenFile) (data : CString) : Bool × CString :=
  match file with
  | .unreadable => (false, data)
  | .empty => (true, trim data)
  | .token word => (true, trim word)

/-- An entry of `/sys/block` with the two files that are read. -/
structure BlockEntry where
  name : CString
  removable : TokenFile
  size : TokenFile
deriving DecidableEq

structure DiskRecord where
  device : CString
  size : Double
deriving DecidableEq

def isDiskName (name : CString) : Bool :=
  startsWith "hd".toList name || startsWith "sd".toList name

def DEVICE_SIZE : Nat := 30

/-- `(double) atoll(buf) / 2097152` -/
def diskSize (buf : CString) : Double :=
  Double.shiftDown 21 (Double.ofInt (atoll buf))

def diskOf (entry : BlockEntry) (buf : CString) :
    Option DiskRecord × CString :=
  if isDiskName entry.name then
    let removable := readStringFromFile entry.removable buf
    if removable.1 && removable.2.head? == some '1' then (none, removable.2)
    else
      let size := readStringFromFile entry.size removable.2
      if size.1 then
        (some
          { device := entry.name.take DEVICE_SIZE
            size := diskSize size.2 },
          size.2)
      else (none, size.2)
  else (none, buf)

def writeDisk (r : DiskRecord) (old : DiskInfo) : DiskInfo :=
  { old with device := r.device, size := r.size }

/-- The loop over the directory; `none` is a write behind the table. -/
def hdLoop : List BlockEntry -> CString -> Nat -> List DiskInfo ->
    Option (Nat × List DiskInfo)
  | [], _, count, table => some (count, table)
  | entry :: rest, buf, count, table =>
      if count < MAX_DISKS then
        match diskOf entry buf with
        | (none, buf') => hdLoop rest buf' count table
        | (some r, buf') => do
            let old ← table[count]?
            let table' ← store table count (writeDisk r old)
            hdLoop rest buf' (count + 1) table'
      else some (count, table)

/-- `disk_qty` and `disk_info` after the call; the listing is `none` when the
directory cannot be opened.  `buf` is what the uninitialised buffer holds. -/
def getHdInfo (listing : Option (List BlockEntry)) (buf : CString)
    (qty : Nat) (table : List DiskInfo) : Option (Nat × List DiskInfo) :=
  match listing with
  | none => some (qty, table)
  | some entries => hdLoop entries buf 0 table

def disksOf : List BlockEntry -> CString -> List DiskRecord
  | [], _ => []
  | entry :: rest, buf =>
      (diskOf entry buf).1.toList ++ disksOf rest (diskOf entry buf).2

def recorded (entries : List BlockEntry) (buf : CString) : List DiskRecord :=
  (disksOf entries buf).take MAX_DISKS

/-!
# The table after a call
-/

theorem hdLoop_eq {entries : List BlockEntry} {buf : CString} {count : Nat}
    {table : List DiskInfo} (htable : table.length = MAX_DISKS)
    (hcount : count ≤ MAX_DISKS) :
    hdLoop entries buf count table =
      (fillFrom count (((disksOf entries buf).take (MAX_DISKS - count)).map
        writeDisk) table).map fun table' =>
          (count + ((disksOf entries buf).take (MAX_DISKS - count)).length,
            table') := by
  induction entries generalizing buf count table with
  | nil => simp [hdLoop, disksOf]
  | cons entry rest ih =>
      unfold hdLoop disksOf
      by_cases hfull : count < MAX_DISKS
      · rw [if_pos hfull]
        cases hdisk : (diskOf entry buf) with
        | mk found buf' =>
            cases found with
            | none =>
                simp only [Option.toList_none, List.nil_append]
                exact ih htable hcount
            | some r =>
                have hi : count < table.length := by omega
                have hleft : MAX_DISKS - count =
                    (MAX_DISKS - (count + 1)) + 1 := by omega
                have hnext : hdLoop rest buf' (count + 1)
                    (table.set count (writeDisk r table[count])) = _ :=
                  ih (by rw [List.length_set, htable]) hfull
                have hstore := store_of_lt hi (writeDisk r table[count])
                simp only [List.getElem?_eq_getElem hi, hstore,
                  Option.bind_eq_bind, Option.bind_some, Option.toList_some,
                  List.singleton_append]
                rw [hnext, hleft, List.take_succ_cons, List.map_cons,
                  fillFrom_cons hi, List.length_cons]
                congr 1
                funext table'
                congr 1
                omega
      · have hzero : MAX_DISKS - count = 0 := by omega
        rw [if_neg hfull, hzero]
        simp

theorem getHdInfo_some (entries : List BlockEntry) (buf : CString)
    (qty : Nat) {table : List DiskInfo} (htable : table.length = MAX_DISKS) :
    exists table' : List DiskInfo, getHdInfo (some entries) buf qty table =
        some ((recorded entries buf).length, table') ∧
      table'.length = MAX_DISKS ∧
        forall k : Nat, table'[k]? =
          match (recorded entries buf)[k]? with
          | none => table[k]?
          | some r => table[k]?.map (writeDisk r) := by
  have hloop : hdLoop entries buf 0 table = _ :=
    hdLoop_eq htable (Nat.zero_le _)
  rw [Nat.sub_zero] at hloop
  have hroom : (recorded entries buf).length ≤ table.length := by
    rw [htable]
    exact List.length_take_le _ _
  rcases fillFrom_front writeDisk hroom with ⟨table', hfill, hlength, hslots⟩
  refine ⟨table', ?_, hlength.trans htable, ?_⟩
  · simp only [getHdInfo, hloop]
    change Option.map _ (fillFrom 0 ((recorded entries buf).map writeDisk)
      table) = _
    rw [hfill, Nat.zero_add]
    rfl
  · intro k
    rw [hslots]
    cases (recorded entries buf)[k]? <;> rfl

end Stats
end Breakin
