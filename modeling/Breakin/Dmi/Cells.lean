import Breakin.Foundation.Runs
import Breakin.Dmi.Decode
import Breakin.Util.TrimTouches

/-!
# The arrays of dmi_data

`dmi_data` as the memory it is: eleven arrays of 50 bytes, one behind the other.
A trim of one array reads the last byte of the array in front of it when its own
string is blank, and stops there because that byte is always NUL.
-/

namespace Breakin
namespace Dmi

open Foundation
open Util
open Stats

/-- The members of `struct dmi_data_t`, in its order. -/
inductive DmiArray where
  | biosVendor
  | biosVersion
  | biosDate
  | sysVendor
  | sysProduct
  | sysVersion
  | sysSerial
  | boardVendor
  | boardProduct
  | boardVersion
  | boardSerial
deriving DecidableEq

namespace DmiArray

def index : DmiArray -> Nat
  | .biosVendor => 0
  | .biosVersion => 1
  | .biosDate => 2
  | .sysVendor => 3
  | .sysProduct => 4
  | .sysVersion => 5
  | .sysSerial => 6
  | .boardVendor => 7
  | .boardProduct => 8
  | .boardVersion => 9
  | .boardSerial => 10

def start (a : DmiArray) : Nat :=
  DMI_FIELD * a.index

def Own (a : DmiArray) (i : Int) : Prop :=
  (a.start : Int) ≤ i ∧ i < a.start + DMI_FIELD

def content (a : DmiArray) (cells : List Char) : List Char :=
  (cells.drop a.start).take DMI_FIELD

def string (a : DmiArray) (cells : List Char) : CString :=
  cstr (cells.drop a.start)

def get (d : DmiData) : DmiArray -> CString
  | .biosVendor => d.biosVendor
  | .biosVersion => d.biosVersion
  | .biosDate => d.biosDate
  | .sysVendor => d.sysVendor
  | .sysProduct => d.sysProduct
  | .sysVersion => d.sysVersion
  | .sysSerial => d.sysSerial
  | .boardVendor => d.boardVendor
  | .boardProduct => d.boardProduct
  | .boardVersion => d.boardVersion
  | .boardSerial => d.boardSerial

def set (d : DmiData) (s : CString) : DmiArray -> DmiData
  | .biosVendor => { d with biosVendor := s }
  | .biosVersion => { d with biosVersion := s }
  | .biosDate => { d with biosDate := s }
  | .sysVendor => { d with sysVendor := s }
  | .sysProduct => { d with sysProduct := s }
  | .sysVersion => { d with sysVersion := s }
  | .sysSerial => { d with sysSerial := s }
  | .boardVendor => { d with boardVendor := s }
  | .boardProduct => { d with boardProduct := s }
  | .boardVersion => { d with boardVersion := s }
  | .boardSerial => { d with boardSerial := s }

end DmiArray

def DMI_CELLS : Nat := DMI_FIELD * 11

def zeroCells : List Char :=
  List.replicate DMI_CELLS NUL

def dataOf (cells : List Char) : DmiData where
  biosVendor := DmiArray.biosVendor.string cells
  biosVersion := DmiArray.biosVersion.string cells
  biosDate := DmiArray.biosDate.string cells
  sysVendor := DmiArray.sysVendor.string cells
  sysProduct := DmiArray.sysProduct.string cells
  sysVersion := DmiArray.sysVersion.string cells
  sysSerial := DmiArray.sysSerial.string cells
  boardVendor := DmiArray.boardVendor.string cells
  boardProduct := DmiArray.boardProduct.string cells
  boardVersion := DmiArray.boardVersion.string cells
  boardSerial := DmiArray.boardSerial.string cells

/-!
# The decoder on the cells
-/

/-- One `snprintf(dmi_data.field, 50, "%s", dmi_string(h, data[k]))`: the text that
fits and its NUL. -/
def copyField (buf : List UInt8) (pos k : Nat) (a : DmiArray)
    (cells : List Char) : Option (List Char × List UInt8) := do
  let (text, buf') ← dmiField buf pos k
  let cells' ← storeAll cells a.start (text ++ [NUL])
  some (cells', buf')

def copyFields (pos : Nat) : List (Nat × DmiArray) -> List UInt8 ->
    List Char -> Option (List Char × List UInt8)
  | [], buf, cells => some (cells, buf)
  | (k, a) :: rest, buf, cells => do
      let (cells', buf') ← copyField buf pos k a cells
      copyFields pos rest buf' cells'

def biosFields : List (Nat × DmiArray) :=
  [(4, .biosVendor), (5, .biosVersion), (6, .biosDate)]

def systemFields : List (Nat × DmiArray) :=
  [(4, .sysVendor), (5, .sysProduct), (6, .sysVersion), (7, .sysSerial)]

def boardFields : List (Nat × DmiArray) :=
  [(4, .boardVendor), (5, .boardProduct), (6, .boardVersion),
    (7, .boardSerial)]

def decodeCells (type length : UInt8) (buf : List UInt8) (pos : Nat)
    (cells : List Char) : Option (List Char × List UInt8) :=
  if type = 0 then
    if length < 0x12 then some (cells, buf)
    else copyFields pos biosFields buf cells
  else if type = 1 then
    if length < 0x08 then some (cells, buf)
    else copyFields pos systemFields buf cells
  else if type = 2 then
    if length < 0x08 then some (cells, buf)
    else copyFields pos boardFields buf cells
  else some (cells, buf)

/-- A structure that `dmi_table` passes on: its header lies in the table, and so do
the two NULs behind its strings. -/
structure AcceptedStructure where
  buf : List UInt8
  pos : Nat
  stop : Nat
  length : UInt8
  header : pos + 4 ≤ buf.length
  decoded : DecodedAt buf pos stop length

/-- The steps of `dmi_decode`: its `switch` on a structure, and one `trim`. -/
inductive DmiAction where
  | switch (s : AcceptedStructure)
  | trim (a : DmiArray)

def cellsStep (cells : List Char) : DmiAction -> Option (List Char)
  | .switch s => do
      let type ← s.buf[s.pos]?
      let length ← s.buf[s.pos + 1]?
      let r ← decodeCells type length s.buf s.pos cells
      some r.1
  | .trim a => (trimTouches cells a.start).value.map Prod.snd

def trimmedArrays : List DmiArray :=
  [.boardVendor, .boardProduct, .biosVersion]

def dmiDecodeCall (s : AcceptedStructure) : List DmiAction :=
  .switch s :: trimmedArrays.map DmiAction.trim

/-!
# What holds of the arrays
-/

/-- The last byte of every array is NUL. -/
structure Ended (cells : List Char) : Prop where
  length : cells.length = DMI_CELLS
  last : forall a : DmiArray, cells[a.start + (DMI_FIELD - 1)]? = some NUL

/-- A trim of one array: it ends, writes to its own cells only, reads the byte in
front of them at most, does read it when the string is blank, and leaves the other
arrays as they were. -/
structure TrimsAlone (cells : List Char) (a : DmiArray) : Prop where
  ends : exists cells', cellsStep cells (.trim a) = some cells'
  writes : forall i,
    Touch.write i ∈ (trimTouches cells a.start).offsets -> a.Own i
  reads : forall i,
    Touch.read i ∈ (trimTouches cells a.start).offsets ->
      a.Own i ∨ i = a.start - 1
  before : (forall c, c ∈ a.string cells -> isTrailing c = true) ->
    Touch.read (a.start - 1) ∈ (trimTouches cells a.start).offsets
  others : forall cells', cellsStep cells (.trim a) = some cells' ->
    forall b, b ≠ a -> b.content cells' = b.content cells

def TrimAlone (cells : List Char) : DmiAction -> Prop
  | .switch _ => True
  | .trim a => TrimsAlone cells a

/-!
# Places
-/

theorem DmiArray.index_injective {a b : DmiArray} (h : a.index = b.index) :
    a = b := by
  cases a <;> cases b <;> first | rfl | cases h

theorem DmiArray.start_le (a : DmiArray) : a.start + DMI_FIELD ≤ DMI_CELLS := by
  cases a <;> decide

theorem DmiArray.apart {a b : DmiArray} (h : b ≠ a) :
    b.start + DMI_FIELD ≤ a.start ∨ a.start + DMI_FIELD ≤ b.start := by
  have hindex : b.index ≠ a.index := fun heq => h (index_injective heq)
  unfold start DMI_FIELD
  omega

theorem exists_before {a : DmiArray} (h : a ∈ trimmedArrays) :
    exists b : DmiArray, b.start + DMI_FIELD = a.start := by
  simp only [trimmedArrays, List.mem_cons, List.not_mem_nil, or_false] at h
  rcases h with rfl | rfl | rfl
  · exact ⟨.sysSerial, rfl⟩
  · exact ⟨.boardVendor, rfl⟩
  · exact ⟨.biosVendor, rfl⟩

theorem ended_zeroCells : Ended zeroCells := by
  refine ⟨List.length_replicate, fun a => ?_⟩
  have hlast : a.start + (DMI_FIELD - 1) < DMI_CELLS := by
    have hle := a.start_le
    have hpos : 0 < DMI_FIELD := by decide
    omega
  rw [zeroCells, List.getElem?_replicate, if_pos hlast]

theorem content_getElem? (a : DmiArray) (cells : List Char) (i : Nat) :
    (a.content cells)[i]? =
      if i < DMI_FIELD then cells[a.start + i]? else none := by
  rw [DmiArray.content, List.getElem?_take, List.getElem?_drop]

theorem Ended.nul_mem {cells : List Char} (h : Ended cells) (a : DmiArray) :
    NUL ∈ a.content cells := by
  apply List.mem_of_getElem? (i := DMI_FIELD - 1)
  rw [content_getElem?, if_pos (by decide)]
  exact h.last a

theorem Ended.string_eq {cells : List Char} (h : Ended cells) (a : DmiArray) :
    a.string cells = cstr (a.content cells) := by
  have hsplit := List.take_append_drop DMI_FIELD (cells.drop a.start)
  rw [← DmiArray.content] at hsplit
  rw [DmiArray.string, ← hsplit]
  exact cstr_append_of_mem (h.nul_mem a) _

theorem Ended.split {cells : List Char} (h : Ended cells) (a : DmiArray)
    {n : Nat} (hn : n ≤ DMI_FIELD) :
    exists left old right, left.length = a.start ∧ old.length = n ∧
      cells = left ++ (old ++ right) := by
  have hle := a.start_le
  have hlength := h.length
  refine ⟨cells.take a.start, (cells.drop a.start).take n,
    (cells.drop a.start).drop n, ?_, ?_, ?_⟩
  · rw [List.length_take]
    omega
  · rw [List.length_take, List.length_drop]
    omega
  · rw [List.take_append_drop, List.take_append_drop]

theorem Ended.replace {a : DmiArray} {left old right s : List Char}
    (h : Ended (left ++ (old ++ right))) (hleft : left.length = a.start)
    (hsize : old.length = (s ++ [NUL]).length) (hfits : s.length < DMI_FIELD) :
    Ended (left ++ ((s ++ [NUL]) ++ right)) ∧
      forall b, b ≠ a -> b.content (left ++ ((s ++ [NUL]) ++ right)) =
        b.content (left ++ (old ++ right)) := by
  have hnew : (s ++ [NUL]).length = s.length + 1 := by
    rw [List.length_append, List.length_singleton]
  have hothers : forall b, b ≠ a -> forall i, i < DMI_FIELD ->
      (left ++ ((s ++ [NUL]) ++ right))[b.start + i]? =
        (left ++ (old ++ right))[b.start + i]? := by
    intro b hb i hi
    apply getElem?_replace hsize
    have hapart := DmiArray.apart hb
    omega
  refine ⟨⟨?_, fun b => ?_⟩, fun b hb => ?_⟩
  · rw [← h.length]
    simp only [List.length_append] at hsize ⊢
    omega
  · by_cases hb : b = a
    · rw [hb]
      by_cases hfull : s.length = DMI_FIELD - 1
      · -- the text fills the array, and its own NUL is the last byte
        have hplace : a.start + (DMI_FIELD - 1) = (left ++ s).length := by
          rw [List.length_append, hleft, hfull]
        have hcells : left ++ ((s ++ [NUL]) ++ right) =
            (left ++ s) ++ NUL :: right := by simp
        rw [hplace, hcells]
        exact read_append _ _ _
      · rw [getElem?_replace hsize (by omega)]
        exact h.last a
    · rw [hothers b hb _ (by decide)]
      exact h.last b
  · apply List.ext_getElem?
    intro i
    rw [content_getElem?, content_getElem?]
    split
    · rename_i hi
      exact hothers b hb i hi
    · rfl

/-!
# The strings of the arrays
-/

theorem dmiData_ext {d d' : DmiData} (h : forall a : DmiArray, a.get d = a.get d') :
    d = d' := by
  rcases d with ⟨d0, d1, d2, d3, d4, d5, d6, d7, d8, d9, d10⟩
  rcases d' with ⟨e0, e1, e2, e3, e4, e5, e6, e7, e8, e9, e10⟩
  rw [DmiData.mk.injEq]
  exact ⟨h .biosVendor, h .biosVersion, h .biosDate, h .sysVendor,
    h .sysProduct, h .sysVersion, h .sysSerial, h .boardVendor,
    h .boardProduct, h .boardVersion, h .boardSerial⟩

@[simp] theorem DmiArray.get_dataOf (a : DmiArray) (cells : List Char) :
    a.get (dataOf cells) = a.string cells := by
  cases a <;> rfl

@[simp] theorem DmiArray.get_set_self (a : DmiArray) (d : DmiData)
    (s : CString) : a.get (a.set d s) = s := by
  cases a <;> rfl

theorem DmiArray.get_set_ne {a b : DmiArray} (h : b ≠ a) (d : DmiData)
    (s : CString) : b.get (a.set d s) = b.get d := by
  cases a <;> cases b <;> first | rfl | exact absurd rfl h

theorem dataOf_set {cells cells' : List Char} (h : Ended cells)
    (h' : Ended cells') {a : DmiArray} {s : CString}
    (hown : a.string cells' = s)
    (hothers : forall b : DmiArray, b ≠ a ->
      b.content cells' = b.content cells) :
    dataOf cells' = a.set (dataOf cells) s := by
  apply dmiData_ext
  intro b
  by_cases hb : b = a
  · rw [hb, DmiArray.get_dataOf, DmiArray.get_set_self, hown]
  · rw [DmiArray.get_set_ne hb, DmiArray.get_dataOf, DmiArray.get_dataOf,
      h.string_eq, h'.string_eq, hothers b hb]

theorem dataOf_zeroCells : dataOf zeroCells = zeroDmi := by
  have hblank : forall n, cstr (List.replicate n NUL) = [] := by
    intro n
    cases n <;> rfl
  simp only [dataOf, DmiArray.string, zeroCells, List.drop_replicate, hblank]
  rfl

/-!
# Copying
-/

theorem charOf_ne_nul {b : UInt8} (h : b ≠ 0) : charOf b ≠ NUL := by
  intro heq
  have hzero : NUL = charOf 0 := by decide
  rw [hzero] at heq
  exact h (charOf_injective heq)

theorem dmiString_literal {buf buf' : List UInt8} {pos s : Nat} {text : String}
    (h : dmiString buf pos s = some (.literal text, buf')) :
    text = "Not Specified" ∨ text = "<bad index>" := by
  unfold dmiString at h
  by_cases hs : s = 0
  · rw [if_pos hs] at h
    cases h
    exact Or.inl rfl
  · rw [if_neg hs] at h
    simp only [Option.bind_eq_bind, Option.bind_eq_some_iff] at h
    rcases h with ⟨length, _, bp, _, c, _, hrest⟩
    by_cases hc : c = 0
    · rw [if_pos hc] at hrest
      cases hrest
      exact Or.inr rfl
    · rw [if_neg hc] at hrest
      rcases Option.bind_eq_some_iff.mp hrest with ⟨filtered, _, heq⟩
      cases heq

theorem readString_noNul {buf buf' : List UInt8} {pos s : Nat} {ptr : DmiPtr}
    {text : CString} (h : dmiString buf pos s = some (ptr, buf'))
    (hread : readString buf' ptr = some text) : NUL ∉ text := by
  cases ptr with
  | literal t =>
      cases hread
      rcases dmiString_literal h with rfl | rfl
      · decide
      · decide
  | table bp =>
      rcases Option.bind_eq_some_iff.mp hread with ⟨n, hlength, heq⟩
      cases heq
      intro hin
      rcases List.mem_map.mp hin with ⟨b, hb, hnul⟩
      apply charOf_ne_nul _ hnul
      rintro rfl
      exact strlen_notMem hlength hb

theorem dmiField_text {buf buf' : List UInt8} {pos k : Nat} {text : CString}
    (h : dmiField buf pos k = some (text, buf')) :
    text.length < DMI_FIELD ∧ NUL ∉ text := by
  unfold dmiField at h
  simp only [Option.bind_eq_bind, Option.bind_eq_some_iff] at h
  rcases h with ⟨s, _, ⟨ptr, filtered⟩, hstring, whole, hread, heq⟩
  cases heq
  constructor
  · have hle : (snprintf DMI_FIELD whole).length ≤ DMI_FIELD - 1 :=
      List.length_take_le _ _
    have hpos : 0 < DMI_FIELD := by decide
    omega
  · intro hin
    exact readString_noNul hstring hread (List.mem_of_mem_take hin)

theorem copyField_data {cells : List Char} (h : Ended cells)
    {buf buf' : List UInt8} {pos k : Nat} {text : CString}
    (hfield : dmiField buf pos k = some (text, buf')) (a : DmiArray) :
    exists cells', copyField buf pos k a cells = some (cells', buf') ∧
      Ended cells' ∧ dataOf cells' = a.set (dataOf cells) text := by
  rcases dmiField_text hfield with ⟨hfits, hnul⟩
  have hsize : (text ++ [NUL]).length ≤ DMI_FIELD := by
    rw [List.length_append, List.length_singleton]
    exact hfits
  rcases h.split a hsize with ⟨left, old, right, hleft, hold, hcells⟩
  rw [hcells] at h ⊢
  rcases h.replace hleft hold hfits with ⟨hended, hothers⟩
  refine ⟨_, ?_, hended, dataOf_set h hended ?_ hothers⟩
  · rw [copyField, hfield]
    simp only [Option.bind_eq_bind, Option.bind_some, ← hleft,
      storeAll_append left hold right]
  · rw [DmiArray.string, ← hleft, List.drop_left, List.append_assoc]
    exact cstr_append_nul hnul right

def readFields (pos : Nat) : List (Nat × DmiArray) -> List UInt8 ->
    DmiData -> Option (DmiData × List UInt8)
  | [], buf, d => some (d, buf)
  | (k, a) :: rest, buf, d => do
      let (text, buf') ← dmiField buf pos k
      readFields pos rest buf' (a.set d text)

theorem copyFields_data {pos : Nat} {fields : List (Nat × DmiArray)}
    {buf buf' : List UInt8} {cells : List Char} {d' : DmiData}
    (h : Ended cells)
    (hread : readFields pos fields buf (dataOf cells) = some (d', buf')) :
    exists cells', copyFields pos fields buf cells = some (cells', buf') ∧
      Ended cells' ∧ dataOf cells' = d' := by
  induction fields generalizing buf cells with
  | nil =>
      cases hread
      exact ⟨cells, rfl, h, rfl⟩
  | cons field rest ih =>
      rcases field with ⟨k, a⟩
      rcases Option.bind_eq_some_iff.mp hread
        with ⟨⟨text, filtered⟩, hfield, hrest⟩
      rcases copyField_data h hfield a with ⟨copied, hcopy, hended, hdata⟩
      have hnext : readFields pos rest filtered (dataOf copied) =
          some (d', buf') := by
        rw [hdata]
        exact hrest
      rcases ih hended hnext with ⟨cells', hcells, hended', hdata'⟩
      refine ⟨cells', ?_, hended', hdata'⟩
      rw [copyFields, hcopy]
      exact hcells

theorem decodeBios_eq (buf : List UInt8) (pos : Nat) (d : DmiData) :
    decodeBios buf pos d = readFields pos biosFields buf d := rfl

theorem decodeSystem_eq (buf : List UInt8) (pos : Nat) (d : DmiData) :
    decodeSystem buf pos d = readFields pos systemFields buf d := by
  simp only [decodeSystem, fourFields, Option.bind_eq_bind, Option.bind_assoc,
    Option.bind_some]
  rfl

theorem decodeBoard_eq (buf : List UInt8) (pos : Nat) (d : DmiData) :
    decodeBoard buf pos d = readFields pos boardFields buf d := by
  simp only [decodeBoard, fourFields, Option.bind_eq_bind, Option.bind_assoc,
    Option.bind_some]
  rfl

/-- The `switch` on the cells is the one on their strings. -/
theorem decodeCells_data {type length : UInt8} {buf buf' : List UInt8}
    {pos : Nat} {cells : List Char} {d' : DmiData} (h : Ended cells)
    (hdecode : decodeType type length buf pos (dataOf cells) =
      some (d', buf')) :
    exists cells', decodeCells type length buf pos cells =
        some (cells', buf') ∧
      Ended cells' ∧ dataOf cells' = d' := by
  have hsame : some (dataOf cells, buf) = some (d', buf') ->
      exists cells', some (cells, buf) = some (cells', buf') ∧
        Ended cells' ∧ dataOf cells' = d' := by
    intro heq
    cases heq
    exact ⟨cells, rfl, h, rfl⟩
  unfold decodeType at hdecode
  unfold decodeCells
  rw [decodeBios_eq, decodeSystem_eq, decodeBoard_eq] at hdecode
  split_ifs at hdecode ⊢
  · exact hsame hdecode
  · exact copyFields_data h hdecode
  · exact hsame hdecode
  · exact copyFields_data h hdecode
  · exact hsame hdecode
  · exact copyFields_data h hdecode
  · exact hsame hdecode

/-!
# Trimming
-/

theorem Ended.guarded {cells : List Char} (h : Ended cells) {a : DmiArray}
    (ha : a ∈ trimmedArrays) :
    exists g : GuardedString, g.cells = cells ∧ g.position = a.start ∧
      g.text = a.string cells ∧ g.text.length < DMI_FIELD := by
  rcases exists_string (h.nul_mem a) with ⟨text, rest, htext, hcontent⟩
  rcases h.split a (Nat.le_refl DMI_FIELD)
    with ⟨left, old, right, hleft, hold, hcells⟩
  have hown : a.content cells = old := by
    rw [DmiArray.content, hcells, ← hleft, List.drop_left, ← hold,
      List.take_left]
  have hstring : a.string cells = text := by
    rw [h.string_eq, hcontent, cstr_append_nul htext]
  rw [hown] at hcontent
  -- the last byte of the array in front
  have hguard : exists x c, left = x ++ [c] ∧ isTrailing c = false := by
    rcases exists_before ha with ⟨b, hb⟩
    have hlast := h.last b
    have hpos : 0 < DMI_FIELD := by decide
    rw [hcells, List.getElem?_append_left (by omega)] at hlast
    rcases List.eq_nil_or_concat left with hnil | ⟨x, c, hx⟩
    · rw [hnil] at hlast
      cases hlast
    · rw [List.concat_eq_append] at hx
      have hplace : b.start + (DMI_FIELD - 1) = x.length := by
        rw [hx, List.length_append, List.length_singleton] at hleft
        omega
      rw [hx, hplace, read_append, Option.some.injEq] at hlast
      exact ⟨x, c, hx, by rw [hlast]; rfl⟩
  have hlength : text.length < DMI_FIELD := by
    rw [hcontent, List.length_append, List.length_cons] at hold
    omega
  exists
    { before := left
      text := text
      after := rest ++ right
      noNul := htext
      guarded := hguard }
  refine ⟨?_, hleft, hstring.symm, hlength⟩
  rw [hcells, hcontent, HeldString.cells, List.append_assoc]
  rfl

def trimString (d : DmiData) (a : DmiArray) : DmiData :=
  a.set d (trim (a.get d))

theorem trim_cells {cells : List Char} (h : Ended cells) {a : DmiArray}
    (ha : a ∈ trimmedArrays) :
    exists cells', cellsStep cells (.trim a) = some cells' ∧ Ended cells' ∧
      (forall b, b ≠ a -> b.content cells' = b.content cells) ∧
        dataOf cells' = trimString (dataOf cells) a := by
  rcases h.guarded ha with ⟨g, hcells, hposition, htext, hlength⟩
  rcases g.window_last with ⟨s, hs⟩
  have hsize : (g.text ++ [NUL]).length = (s ++ [NUL]).length := by
    rw [← hs, g.window_length, List.length_append, List.length_singleton]
  have hfits : s.length < DMI_FIELD := by
    rw [List.length_append, List.length_append] at hsize
    omega
  have hwhole : cells = g.before ++ ((g.text ++ [NUL]) ++ g.after) := by
    rw [← hcells, HeldString.cells, List.append_assoc]
    rfl
  have hvalue := g.value_eq
  rw [hcells, hposition, hs] at hvalue
  have hended := h
  rw [hwhole] at hended
  rcases hended.replace hposition hsize hfits with ⟨hended', hothers⟩
  rw [← hwhole] at hothers
  refine ⟨_, ?_, hended', hothers, dataOf_set h hended' ?_ hothers⟩
  · rw [cellsStep, hvalue]
    rfl
  · have hwindow := g.window_string
    rw [hs] at hwindow
    rw [DmiArray.get_dataOf, ← htext, ← hwindow, DmiArray.string, ← hposition,
      HeldString.position, List.drop_left]
    exact cstr_append_of_mem (by simp) g.after

theorem trimsAlone {cells : List Char} (h : Ended cells) {a : DmiArray}
    (ha : a ∈ trimmedArrays) : TrimsAlone cells a := by
  rcases trim_cells h ha with ⟨cells', hstep, _, hothers, _⟩
  rcases h.guarded ha with ⟨g, hcells, hposition, htext, hlength⟩
  have hown : forall i, g.Own i -> a.Own i := by
    intro i hi
    rw [HeldString.Own, hposition] at hi
    rw [DmiArray.Own]
    omega
  refine ⟨⟨cells', hstep⟩, ?_, ?_, ?_, ?_⟩
  · intro i hi
    rw [← hcells, ← hposition] at hi
    exact hown i (GuardedString.write_own hi)
  · intro i hi
    rw [← hcells, ← hposition] at hi
    rw [← hposition]
    exact (GuardedString.touch_own_or_before hi).imp (hown i) id
  · intro hblank
    rw [← htext] at hblank
    rw [← hcells, ← hposition]
    exact GuardedString.reads_before hblank
  · intro cells'' hstep'
    rw [hstep] at hstep'
    cases hstep'
    exact hothers

/-!
# Whole calls
-/

theorem trimFields_eq (d : DmiData) :
    trimFields d = trimmedArrays.foldl trimString d := by
  cases d
  rfl

theorem trims_data {arrays : List DmiArray}
    (harrays : forall a, a ∈ arrays -> a ∈ trimmedArrays) {cells : List Char}
    (h : Ended cells) :
    exists cells',
      runFrom cellsStep cells (arrays.map DmiAction.trim) = some cells' ∧
        Ended cells' ∧
          dataOf cells' = arrays.foldl trimString (dataOf cells) := by
  induction arrays generalizing cells with
  | nil => exact ⟨cells, rfl, h, rfl⟩
  | cons a rest ih =>
      rcases trim_cells h (harrays a (List.mem_cons_self ..))
        with ⟨trimmed, hstep, hended, _, hdata⟩
      rcases ih (fun b hb => harrays b (List.mem_cons_of_mem a hb)) hended
        with ⟨cells', hrun, hended', hdata'⟩
      refine ⟨cells', ?_, hended', ?_⟩
      · rw [List.map_cons]
        exact runFrom_cons_some.mpr ⟨trimmed, hstep, hrun⟩
      · rw [hdata', hdata, List.foldl_cons]

theorem switch_cells (s : AcceptedStructure) {cells : List Char}
    (h : Ended cells) :
    exists cells' buf', cellsStep cells (.switch s) = some cells' ∧
      Ended cells' ∧
        dmiDecode s.buf s.pos (dataOf cells) =
          some (trimFields (dataOf cells'), buf') := by
  rcases s.decoded.decode (dataOf cells) with ⟨d', cut, _, _, hdecode⟩
  have hcall := hdecode
  simp only [dmiDecode, Option.bind_eq_bind, Option.bind_eq_some_iff] at hcall
  rcases hcall with ⟨type, htype, length, hlength, ⟨d1, buf'⟩, hswitch, heq⟩
  rcases decodeCells_data h hswitch with ⟨cells', hcells, hended, hdata⟩
  refine ⟨cells', buf', ?_, hended, ?_⟩
  · simp only [cellsStep, htype, hlength, hcells, Option.bind_eq_bind,
      Option.bind_some]
  · rw [hdecode, hdata]
    exact heq.symm

theorem dmiDecodeCall_data (s : AcceptedStructure) {cells : List Char}
    (h : Ended cells) :
    exists cells' buf',
      runFrom cellsStep cells (dmiDecodeCall s) = some cells' ∧ Ended cells' ∧
        dmiDecode s.buf s.pos (dataOf cells) = some (dataOf cells', buf') := by
  rcases switch_cells s h with ⟨copied, buf', hstep, hended, hdecode⟩
  rcases trims_data (fun _ ha => ha) hended with ⟨cells', hrun, hended', hdata⟩
  refine ⟨cells', buf', runFrom_cons_some.mpr ⟨copied, hstep, hrun⟩, hended', ?_⟩
  rw [hdecode, hdata, ← trimFields_eq]

/-- The walk over a table makes calls on structures it accepts, and leaves the
strings of the cells. -/
theorem dmiLoop_calls {len : Nat} (n pos : Nat) {buf : List UInt8}
    (hbuf : buf.length = len) {cells : List Char} (h : Ended cells) :
    exists (structures : List AcceptedStructure) (cells' : List Char),
      runFrom cellsStep cells (structures.flatMap dmiDecodeCall) =
          some cells' ∧
        Ended cells' ∧
          dmiLoop len n pos buf (dataOf cells) = some (dataOf cells') := by
  induction n generalizing pos buf cells with
  | zero => exact ⟨[], cells, rfl, h, rfl⟩
  | succ n ih =>
      by_cases hpos : pos + 4 ≤ len
      · rw [← hbuf] at hpos
        rcases dmiLoop_turn hpos with ⟨length, stop, hdecoded, hturn⟩
        rw [← hbuf, hturn]
        by_cases hstop : stop + 2 ≤ buf.length
        · let s : AcceptedStructure :=
            { buf := buf
              pos := pos
              stop := stop
              length := length
              header := hpos
              decoded := hdecoded hstop }
          rcases dmiDecodeCall_data s h
            with ⟨middle, buf', hcall, hended, hdecode⟩
          have hkept : buf'.length = len := by
            rcases s.decoded.decode (dataOf cells) with ⟨d', cut, hcut, _, hsame⟩
            rw [hdecode] at hsame
            cases hsame
            rw [List.length_append, List.length_drop, hcut]
            change stop + 2 + (buf.length - (stop + 2)) = len
            omega
          rcases ih (stop + 2) hkept hended
            with ⟨structures, cells', hrun, hended', hloop⟩
          refine ⟨s :: structures, cells', ?_, hended', ?_⟩
          · rw [List.flatMap_cons]
            exact runFrom_append.mpr ⟨middle, hcall, hrun⟩
          · rw [if_pos hstop, hdecode, Option.bind_some, hbuf]
            exact hloop
        · rw [if_neg hstop, hbuf]
          exact ih (stop + 2) hbuf h
      · exact ⟨[], cells, rfl, h, dmiLoop_end hpos n buf _⟩

/-- The whole table, from the arrays as they are at the start of the program. -/
theorem dmiTable_calls (buf : List UInt8) (num : Nat) :
    exists (structures : List AcceptedStructure) (cells : List Char),
      runFrom cellsStep zeroCells (structures.flatMap dmiDecodeCall) =
          some cells ∧
        Ended cells ∧ dmiTable (some buf) num zeroDmi = some (dataOf cells) := by
  rw [← dataOf_zeroCells]
  exact dmiLoop_calls num 0 rfl ended_zeroCells

def InCall : DmiAction -> Prop
  | .switch _ => True
  | .trim a => a ∈ trimmedArrays

theorem inCall_of_mem {structures : List AcceptedStructure} {e : DmiAction}
    (h : e ∈ structures.flatMap dmiDecodeCall) : InCall e := by
  rcases List.mem_flatMap.mp h with ⟨s, _, hcall⟩
  rcases List.mem_cons.mp hcall with rfl | htrim
  · trivial
  · rcases List.mem_map.mp htrim with ⟨a, ha, rfl⟩
    exact ha

theorem cellsStep_ended {cells : List Char} {e : DmiAction} (h : Ended cells)
    (he : InCall e) :
    exists cells', cellsStep cells e = some cells' ∧ Ended cells' := by
  cases e with
  | switch s =>
      rcases switch_cells s h with ⟨cells', _, hstep, hended, _⟩
      exact ⟨cells', hstep, hended⟩
  | trim a =>
      rcases trim_cells h he with ⟨cells', hstep, hended, _, _⟩
      exact ⟨cells', hstep, hended⟩

theorem TrimAlone.of_ended {cells : List Char} {e : DmiAction} (h : Ended cells)
    (he : InCall e) : TrimAlone cells e := by
  cases e with
  | switch s => trivial
  | trim a => exact trimsAlone h he

/-- Over any sequence of calls every array ends with a NUL after every step, and
every trim is one of its own array alone. -/
theorem dmiArrays_separate (structures : List AcceptedStructure) :
    (exists cells,
      runFrom cellsStep zeroCells (structures.flatMap dmiDecodeCall) =
        some cells) ∧
    Along cellsStep zeroCells (structures.flatMap dmiDecodeCall) Ended ∧
    StepsMeet cellsStep zeroCells (structures.flatMap dmiDecodeCall)
      TrimAlone := by
  have hcalls : forall e, e ∈ structures.flatMap dmiDecodeCall -> InCall e :=
    fun e => inCall_of_mem
  have hmeet : StepsMeet cellsStep zeroCells
      (structures.flatMap dmiDecodeCall) fun _ e => InCall e :=
    stepsMeet_of_mem hcalls
  have hended : Along cellsStep zeroCells
      (structures.flatMap dmiDecodeCall) Ended := by
    refine along_invariant ?_ ended_zeroCells hmeet
    intro cells e cells' h he hstep
    rcases cellsStep_ended h he with ⟨cells'', hstep', h'⟩
    rw [hstep] at hstep'
    cases hstep'
    exact h'
  refine ⟨?_, hended, ?_⟩
  · rcases runFrom_total (L := InCall) (fun _ _ h he => cellsStep_ended h he)
      ended_zeroCells hcalls with ⟨cells, hrun, _⟩
    exact ⟨cells, hrun⟩
  · intro pre e post cells hacts hrun
    exact TrimAlone.of_ended (hended pre (e :: post) cells hacts hrun)
      (hmeet pre e post cells hacts hrun)

end Dmi
end Breakin
