import Breakin.Foundation.Scratch
import Breakin.Stats.Disks

/-!
# The files of a disk

`get_hd_info` reads the two files of every disk into one buffer, and
`read_string_from_file` reports success for a file that holds no word.  The buffer
then still holds what was read before it.
-/

namespace Breakin
namespace Stats

open Foundation
open Util

def IsWord (word : CString) : Prop :=
  forall c, c ∈ word -> isSpace c = false

instance (word : CString) : Decidable (IsWord word) :=
  List.decidableBAll (fun c => isSpace c = false) word

def BlockEntry.Words (entry : BlockEntry) : Prop :=
  forall word, entry.removable = .token word ∨ entry.size = .token word ->
    IsWord word

structure BlockListing where
  entries : List BlockEntry
  words : forall entry, entry ∈ entries -> entry.Words

/-- The file yields a word that starts with `1`. -/
def TokenFile.saysOne : TokenFile -> Bool
  | .token word => word.head? == some '1'
  | _ => false

def ownRecord (entry : BlockEntry) : Option DiskRecord :=
  if isDiskName entry.name && !entry.removable.saysOne then
    match entry.size with
    | .token word =>
        some
          { device := entry.name.take DEVICE_SIZE
            size := diskSize word }
    | _ => none
  else none

def OwnFilesDecide (entry : BlockEntry) : Prop :=
  isDiskName entry.name = false ∨ entry.removable.saysOne = true ∨
    entry.size = .unreadable ∨
      (entry.removable ≠ .empty ∧ entry.size ≠ .empty)

def diskRecords (qty : Nat) (table : List DiskInfo) : List DiskRecord :=
  (table.take qty).map fun d => { device := d.device, size := d.size }

/-!
# One entry
-/

theorem trim_word {word : CString} (h : IsWord word) : trim word = word := by
  apply trim_eq_self
  intro c hc
  cases htrailing : isTrailing c with
  | false => rfl
  | true =>
      have hspace : isSpace c = true := by
        simp only [isTrailing, Bool.or_eq_true, beq_iff_eq] at htrailing
        rcases htrailing with ((hc | hc) | hc) | hc <;> rw [hc] <;> rfl
      rw [h c hc] at hspace
      cases hspace

theorem diskOf_noDisk {entry : BlockEntry} (h : isDiskName entry.name = false)
    (buf : CString) : diskOf entry buf = (none, buf) := by
  rw [diskOf, h]
  rfl

def skips (entry : BlockEntry) (buf : CString) : Bool :=
  let removable := readStringFromFile entry.removable buf
  removable.1 && removable.2.head? == some '1'

theorem diskOf_skipped {entry : BlockEntry} {buf : CString}
    (h : isDiskName entry.name = true) (hskip : skips entry buf = true) :
    (diskOf entry buf).1 = none := by
  unfold skips at hskip
  unfold diskOf
  simp only [if_pos h, if_pos hskip]

theorem diskOf_kept {entry : BlockEntry} {buf : CString}
    (h : isDiskName entry.name = true) (hskip : skips entry buf = false) :
    (diskOf entry buf).1 =
      match entry.size with
      | .unreadable => none
      | .empty =>
          some
            { device := entry.name.take DEVICE_SIZE
              size := diskSize
                (trim (readStringFromFile entry.removable buf).2) }
      | .token word =>
          some
            { device := entry.name.take DEVICE_SIZE
              size := diskSize (trim word) } := by
  unfold skips at hskip
  unfold diskOf
  simp only [if_pos h, hskip, Bool.false_eq_true, if_false]
  cases entry.size <;> rfl

theorem skips_of_word {entry : BlockEntry} (hwords : entry.Words)
    (h : entry.removable ≠ .empty) (buf : CString) :
    skips entry buf = entry.removable.saysOne := by
  unfold skips
  cases hfile : entry.removable with
  | unreadable => rfl
  | empty => exact absurd hfile h
  | token word =>
      have hword : IsWord word := hwords word (Or.inl hfile)
      simp only [readStringFromFile, TokenFile.saysOne, trim_word hword,
        Bool.true_and]

theorem skips_of_empty {entry : BlockEntry} (h : entry.removable = .empty)
    (buf : CString) : skips entry buf = ((trim buf).head? == some '1') := by
  unfold skips
  rw [h]
  rfl

theorem ownRecord_disk {entry : BlockEntry}
    (h : isDiskName entry.name = true)
    (hone : entry.removable.saysOne = false) :
    ownRecord entry =
      match entry.size with
      | .token word =>
          some
            { device := entry.name.take DEVICE_SIZE
              size := diskSize word }
      | _ => none := by
  rw [ownRecord, h, hone]
  rfl

theorem ownRecord_removable {entry : BlockEntry}
    (hone : entry.removable.saysOne = true) : ownRecord entry = none := by
  rw [ownRecord, hone, Bool.not_true, Bool.and_false]
  rfl

theorem determined_of_decide {entry : BlockEntry} (hwords : entry.Words)
    (h : OwnFilesDecide entry) : Determined diskOf ownRecord entry := by
  intro buf
  cases hname : isDiskName entry.name with
  | false =>
      rw [diskOf_noDisk hname, ownRecord, hname]
      rfl
  | true =>
      rcases h with hnoDisk | hone | hsize | ⟨hremovable, hsize⟩
      · rw [hname] at hnoDisk
        cases hnoDisk
      · have hfile : entry.removable ≠ .empty := by
          intro hempty
          rw [hempty] at hone
          cases hone
        rw [ownRecord_removable hone]
        exact diskOf_skipped hname ((skips_of_word hwords hfile buf).trans hone)
      · have hown : ownRecord entry = none := by
          unfold ownRecord
          rw [hsize]
          split <;> rfl
        rw [hown]
        cases hskip : skips entry buf with
        | true => exact diskOf_skipped hname hskip
        | false => rw [diskOf_kept hname hskip, hsize]
      · have hskip := skips_of_word hwords hremovable buf
        cases hsays : entry.removable.saysOne with
        | true =>
            rw [ownRecord_removable hsays]
            exact diskOf_skipped hname (hskip.trans hsays)
        | false =>
            rw [ownRecord_disk hname hsays,
              diskOf_kept hname (hskip.trans hsays)]
            cases hfile : entry.size with
            | unreadable => rfl
            | empty => exact absurd hfile hsize
            | token word =>
                have hword : IsWord word := hwords word (Or.inr hfile)
                simp only [trim_word hword]

def zeroWord : CString := "0".toList

def oneWord : CString := "1".toList

/-- One of the two words in the buffer gives an entry with an empty file a record
that it is not to have, or takes the one it is to have. -/
theorem decide_of_outcomes {entry : BlockEntry} (hwords : entry.Words)
    (hzero : (diskOf entry zeroWord).1 = ownRecord entry)
    (hone : (diskOf entry oneWord).1 = ownRecord entry) :
    OwnFilesDecide entry := by
  unfold OwnFilesDecide
  cases hname : isDiskName entry.name with
  | false => exact Or.inl rfl
  | true =>
      right
      cases hsays : entry.removable.saysOne with
      | true => exact Or.inl rfl
      | false =>
          right
          rw [ownRecord_disk hname hsays] at hzero hone
          cases hsize : entry.size with
          | unreadable => exact Or.inl rfl
          | empty =>
              have hskip : skips entry zeroWord = false := by
                by_cases hempty : entry.removable = .empty
                · rw [skips_of_empty hempty]
                  rfl
                · exact (skips_of_word hwords hempty _).trans hsays
              rw [diskOf_kept hname hskip, hsize] at hzero
              cases hzero
          | token word =>
              right
              refine ⟨?_, TokenFile.noConfusion⟩
              intro hempty
              have hskip : skips entry oneWord = true := by
                rw [skips_of_empty hempty]
                rfl
              rw [diskOf_skipped hname hskip, hsize] at hone
              cases hone

/-!
# The listing
-/

theorem disksOf_eq (entries : List BlockEntry) (buf : CString) :
    disksOf entries buf = collect diskOf entries buf := by
  induction entries generalizing buf with
  | nil => rfl
  | cons entry rest ih => rw [disksOf, collect, ih]

structure DiskTable where
  slots : List DiskInfo
  size : slots.length = MAX_DISKS

theorem getHdInfo_records (entries : List BlockEntry) (buf : CString)
    (qty : Nat) (t : DiskTable) :
    exists (qty' : Nat) (table' : List DiskInfo),
      getHdInfo (some entries) buf qty t.slots = some (qty', table') ∧
        qty' = (diskRecords qty' table').length ∧
          diskRecords qty' table' =
            (visited diskOf entries buf MAX_DISKS).reduceOption := by
  rcases getHdInfo_some entries buf qty t.size
    with ⟨table', hcall, hlength, hslots⟩
  have hrecorded : (visited diskOf entries buf MAX_DISKS).reduceOption =
      recorded entries buf := by
    rw [visited_reduceOption, recorded, disksOf_eq]
  have hroom : (recorded entries buf).length ≤ MAX_DISKS :=
    List.length_take_le _ _
  refine ⟨_, table', hcall, ?_, ?_⟩
  · rw [diskRecords, List.length_map, List.length_take, hlength,
      min_eq_left hroom]
  rw [hrecorded]
  apply List.ext_getElem?
  intro k
  rw [diskRecords, List.getElem?_map, List.getElem?_take]
  cases hk : (recorded entries buf)[k]? with
  | none =>
      rw [if_neg (Nat.not_lt.mpr (List.getElem?_eq_none_iff.mp hk))]
      rfl
  | some r =>
      have hlt : k < (recorded entries buf).length :=
        (List.getElem?_eq_some_iff.mp hk).1
      have hsize := t.size
      have hold : t.slots[k]? = some t.slots[k] :=
        List.getElem?_eq_getElem (by omega)
      rw [if_pos hlt, hslots k, hk, hold]
      rfl

def FilesChange (entry entry' : BlockEntry) : Prop :=
  entry'.name = entry.name ∧ entry'.Words

/-- The table holds the disks of the listing with their own sizes, up to
`MAX_DISKS`, and no disk that is looked at depends on the files of another. -/
structure OwnFilesOnly (l : BlockListing) : Prop where
  recorded : forall (buf : CString) (qty : Nat) (t : DiskTable),
    exists (qty' : Nat) (table' : List DiskInfo),
      getHdInfo (some l.entries) buf qty t.slots = some (qty', table') ∧
        qty' = (diskRecords qty' table').length ∧
          diskRecords qty' table' =
            (l.entries.filterMap ownRecord).take MAX_DISKS
  independent :
    Independent diskOf ownRecord FilesChange l.entries MAX_DISKS

def OwnFilesDecideAll (l : BlockListing) : Prop :=
  forall (i : Nat) (entry : BlockEntry), l.entries[i]? = some entry ->
    ((l.entries.take i).filterMap ownRecord).length < MAX_DISKS ->
      OwnFilesDecide entry

theorem determined_iff_decide {entry : BlockEntry} (hwords : entry.Words) :
    Determined diskOf ownRecord entry <-> OwnFilesDecide entry := by
  constructor
  · intro h
    exact decide_of_outcomes hwords (h zeroWord) (h oneWord)
  · exact determined_of_decide hwords

theorem determinedWithin_iff (l : BlockListing) :
    DeterminedWithin diskOf ownRecord l.entries MAX_DISKS <->
      OwnFilesDecideAll l := by
  constructor
  · intro h i entry hi hroom
    exact (determined_iff_decide (l.words entry (List.mem_of_getElem? hi))).mp
      (h i entry hi hroom)
  · intro h i entry hi hroom
    exact (determined_iff_decide (l.words entry (List.mem_of_getElem? hi))).mpr
      (h i entry hi hroom)

theorem leaves_word {entry : BlockEntry} (h : ¬ Passive diskOf entry)
    {word : CString} (hword : word ∈ [zeroWord, oneWord]) :
    exists entry', FilesChange entry entry' ∧
      forall buf, diskOf entry' buf = (none, word) := by
  have hname : isDiskName entry.name = true := by
    by_contra hno
    exact h (diskOf_noDisk (Bool.eq_false_iff.mpr hno))
  have hwords : IsWord word := by
    simp only [List.mem_cons, List.not_mem_nil, or_false] at hword
    rcases hword with hword | hword <;> rw [hword] <;> decide
  exists { entry with removable := .token word, size := .unreadable }
  refine ⟨⟨rfl, ?_⟩, ?_⟩
  · intro word' hfile
    rcases hfile with hfile | hfile
    · cases hfile
      exact hwords
    · cases hfile
  · intro buf
    simp only [diskOf, if_pos hname, readStringFromFile, trim_word hwords]
    split <;> rfl

theorem independent_iff (l : BlockListing) :
    Independent diskOf ownRecord FilesChange l.entries MAX_DISKS <->
      OwnFilesDecideAll l := by
  rw [← determinedWithin_iff]
  apply independent_iff_determined [zeroWord, oneWord]
  · intro entry hin htell
    have hwords := l.words entry hin
    exact determined_of_decide hwords (decide_of_outcomes hwords
      (htell _ (by simp)) (htell _ (by simp)))
  · intro entry _ hactive word hword
    exact leaves_word hactive hword

/-- The records of a call depend on the disks' own files exactly when nothing is
left to the buffer for any entry that there is room for. -/
theorem ownFilesOnly_iff (l : BlockListing) :
    OwnFilesOnly l <-> OwnFilesDecideAll l := by
  constructor
  · intro h
    exact (independent_iff l).mp h.independent
  · intro h
    refine ⟨?_, (independent_iff l).mpr h⟩
    intro buf qty t
    rcases getHdInfo_records l.entries buf qty t
      with ⟨qty', table', hcall, hqty, hrecords⟩
    refine ⟨qty', table', hcall, hqty, ?_⟩
    rw [hrecords, visited_reduceOption]
    exact collect_determined ((determinedWithin_iff l).mpr h)

def goneDisk : BlockListing where
  entries :=
    [{ name := "sda".toList
       removable := .token "0".toList
       size := .token "4194304".toList },
      { name := "sdb".toList
        removable := .token "0".toList
        size := .empty }]
  words := by
    intro entry hin word hword
    simp only [List.mem_cons, List.not_mem_nil, or_false] at hin
    rcases hin with hin | hin <;> rw [hin] at hword <;>
      rcases hword with hword | hword <;> cases hword <;> decide

theorem goneDisk_not_own : ¬ OwnFilesOnly goneDisk := by
  intro h
  have hsecond := h.independent.outcome [] 1 _ _ rfl rfl
  exact absurd hsecond (by decide)

end Stats
end Breakin
