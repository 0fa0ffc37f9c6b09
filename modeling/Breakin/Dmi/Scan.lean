import Mathlib.Algebra.Order.Ring.Nat
import Breakin.Foundation.Accesses
import Breakin.Foundation.SkipScan

/-!
# Looking for the entry point

`do_dmi_decode` scans 64 KiB of memory for the anchor of an SMBIOS entry point and
calls `dmi_table` for the entry points whose checksums are right.
-/

namespace Breakin
namespace Dmi

open Foundation
open Access

/-- The bytes from the start of the chunk on; the chunk ends at `0x10000`. -/
abbrev Memory := Nat -> UInt8

def SM_ANCHOR : List UInt8 := [0x5F, 0x53, 0x4D, 0x5F]

def DMI_ANCHOR : List UInt8 := [0x5F, 0x44, 0x4D, 0x49, 0x5F]

/-- `for(a=0; a<len; a++) sum+=buf[a];` -/
def sumLoop (mem : Memory) : Nat -> Nat -> UInt8 -> Access Nat UInt8
  | _, 0, sum => pure sum
  | buf, len + 1, sum => do
      let b ← read mem buf
      sumLoop mem (buf + 1) len (sum + b)

def checksum (mem : Memory) (buf len : Nat) : Access Nat Bool := do
  let sum ← sumLoop mem buf len 0
  pure (sum == 0)

/-- `memcmp(buf, word, n) == 0` -/
def memcmp (mem : Memory) (buf : Nat) (word : List UInt8) :
    Access Nat Bool := do
  let bytes ← readBlock mem buf word.length
  pure (bytes == word)

def littleEndian : List UInt8 -> Nat
  | [] => 0
  | b :: rest => b.toNat + 256 * littleEndian rest

/-- `WORD(x)` -/
def word (mem : Memory) (x : Nat) : Access Nat UInt16 := do
  let bytes ← readBlock mem x 2
  pure (UInt16.ofNat (littleEndian bytes))

/-- `DWORD(x)` -/
def dword (mem : Memory) (x : Nat) : Access Nat UInt32 := do
  let bytes ← readBlock mem x 4
  pure (UInt32.ofNat (littleEndian bytes))

/-- A call of `dmi_table`, with the offset of the entry point it is made for. -/
structure DmiCall where
  fp : Nat
  base : UInt32
  len : UInt16
  num : UInt16
  ver : UInt16
deriving DecidableEq

def tableArguments (mem : Memory) (buf : Nat) : Access Nat DmiCall := do
  let base ← dword mem (buf + 0x18)
  let len ← word mem (buf + 0x16)
  let num ← word mem (buf + 0x1C)
  let major ← read mem (buf + 0x06)
  let minor ← read mem (buf + 0x07)
  let ver := UInt16.ofNat (256 * major.toNat + minor.toNat)
  pure { fp := buf, base := base, len := len, num := num, ver := ver }

/-- The condition of `smbios_decode`. -/
def entryChecks (mem : Memory) (buf : Nat) (length : UInt8) :
    Access Nat Bool :=
  andAlso (checksum mem buf length.toNat)
    (andAlso (memcmp mem (buf + 0x10) DMI_ANCHOR)
      (checksum mem (buf + 0x10) 0x0F))

def smbiosDecode (mem : Memory) (buf : Nat) :
    Access Nat (Option DmiCall) := do
  let length ← read mem (buf + 0x05)
  let valid ← entryChecks mem buf length
  if valid then do
    let call ← tableArguments mem buf
    pure (some call)
  else pure none

/-- `for(fp=...; fp<=0xFFF0; fp+=16)`, whose body moves `fp` on by itself behind
every anchor. -/
def scanFrom (mem : Memory) (fp : Nat) : Access Nat (List DmiCall) :=
  if h : fp ≤ 0xFFF0 then do
    let anchor ← memcmp mem fp SM_ANCHOR
    if anchor && decide (fp ≤ 0xFFE0) then do
      let call ← smbiosDecode mem fp
      let rest ← scanFrom mem (fp + 16 + 16)
      pure (call.toList ++ rest)
    else scanFrom mem (fp + 16)
  else pure []
termination_by 0x10000 - fp

/-- `do_dmi_decode` with the chunk that `mem_chunk` returned. -/
def doDmiDecode (mem : Memory) : Access Nat (List DmiCall) :=
  scanFrom mem 0

/-!
# What the parts compute and read
-/

def byteSum (mem : Memory) (start n : Nat) : Nat :=
  ((block mem start n).map UInt8.toNat).sum

theorem byteSum_succ (mem : Memory) (start n : Nat) :
    byteSum mem start (n + 1) =
      (mem start).toNat + byteSum mem (start + 1) n := rfl

theorem sumLoop_value (mem : Memory) (buf len : Nat) (sum : UInt8) :
    (sumLoop mem buf len sum).value =
      some (UInt8.ofNat (sum.toNat + byteSum mem buf len)) := by
  induction len generalizing buf sum with
  | zero =>
      rw [sumLoop, pure_value]
      exact congrArg some (UInt8.ofNat_toNat).symm
  | succ len ih =>
      rw [sumLoop, bind_value (read_value mem buf), ih, byteSum_succ]
      congr 1
      apply UInt8.toNat_inj.mp
      rw [UInt8.toNat_ofNat', UInt8.toNat_ofNat', UInt8.toNat_add]
      omega

theorem sumLoop_offsets (mem : Memory) (buf len : Nat) (sum : UInt8) :
    (sumLoop mem buf len sum).offsets = List.range' buf len := by
  induction len generalizing buf sum with
  | zero => rfl
  | succ len ih =>
      rw [sumLoop, bind_offsets (read_value mem buf), ih]
      rfl

theorem checksum_value (mem : Memory) (buf len : Nat) :
    (checksum mem buf len).value =
      some (decide (byteSum mem buf len % 256 = 0)) := by
  rw [checksum, bind_value (sumLoop_value mem buf len 0), pure_value]
  congr 1
  have hzero : (0 : UInt8).toNat = 0 := rfl
  rw [Bool.eq_iff_iff, beq_iff_eq, decide_eq_true_eq, ← UInt8.toNat_inj,
    UInt8.toNat_ofNat', hzero, Nat.zero_add]

theorem memcmp_value (mem : Memory) (buf : Nat) (word : List UInt8) :
    (memcmp mem buf word).value =
      some (decide (block mem buf word.length = word)) := by
  rw [memcmp, bind_value (readBlock_value mem buf _), pure_value]
  congr 1
  rw [Bool.eq_iff_iff, beq_iff_eq, decide_eq_true_eq]

section Reach

variable {limit : Nat}

theorem checksum_inside {mem : Memory} {buf len : Nat} (hbuf : buf ≤ limit) :
    Inside (· < limit) (checksum mem buf len) <-> buf + len ≤ limit := by
  rw [checksum, inside_bind (sumLoop_value mem buf len 0)]
  unfold Inside
  rw [sumLoop_offsets]
  constructor
  · rintro ⟨hall, _⟩
    cases len with
    | zero => exact hbuf
    | succ len =>
        exact hall (buf + len) (List.mem_range'_1.mpr ⟨by omega, by omega⟩)
  · intro hle
    refine ⟨fun i hi => ?_, inside_pure _ _⟩
    exact Nat.lt_of_lt_of_le (List.mem_range'_1.mp hi).right hle

theorem readBlock_inside {mem : Memory} {start n : Nat}
    (hle : start + n ≤ limit) :
    Inside (· < limit) (readBlock mem start n) := by
  intro i hi
  rw [readBlock_offsets] at hi
  exact Nat.lt_of_lt_of_le (List.mem_range'_1.mp hi).right hle

theorem word_inside {mem : Memory} {x : Nat} (hle : x + 2 ≤ limit) :
    Inside (· < limit) (word mem x) :=
  (inside_bind (readBlock_value mem x 2)).mpr
    ⟨readBlock_inside hle, inside_pure _ _⟩

theorem dword_inside {mem : Memory} {x : Nat} (hle : x + 4 ≤ limit) :
    Inside (· < limit) (dword mem x) :=
  (inside_bind (readBlock_value mem x 4)).mpr
    ⟨readBlock_inside hle, inside_pure _ _⟩

theorem memcmp_inside {mem : Memory} {buf : Nat} {word : List UInt8}
    (hle : buf + word.length ≤ limit) :
    Inside (· < limit) (memcmp mem buf word) :=
  (inside_bind (readBlock_value mem buf _)).mpr
    ⟨readBlock_inside hle, inside_pure _ _⟩

end Reach

/-!
# The entry point
-/

def callAt (mem : Memory) (fp : Nat) : DmiCall where
  fp := fp
  base := UInt32.ofNat (littleEndian (block mem (fp + 0x18) 4))
  len := UInt16.ofNat (littleEndian (block mem (fp + 0x16) 2))
  num := UInt16.ofNat (littleEndian (block mem (fp + 0x1C) 2))
  ver := UInt16.ofNat
    (256 * (mem (fp + 0x06)).toNat + (mem (fp + 0x07)).toNat)

theorem word_value (mem : Memory) (x : Nat) :
    (word mem x).value =
      some (UInt16.ofNat (littleEndian (block mem x 2))) := by
  rw [word, bind_value (readBlock_value mem x 2), pure_value]

theorem dword_value (mem : Memory) (x : Nat) :
    (dword mem x).value =
      some (UInt32.ofNat (littleEndian (block mem x 4))) := by
  rw [dword, bind_value (readBlock_value mem x 4), pure_value]

theorem tableArguments_value (mem : Memory) (fp : Nat) :
    (tableArguments mem fp).value = some (callAt mem fp) := by
  rw [tableArguments, bind_value (dword_value mem _),
    bind_value (word_value mem _), bind_value (word_value mem _),
    bind_value (read_value mem _), bind_value (read_value mem _)]
  rfl

theorem tableArguments_inside {mem : Memory} {fp limit : Nat}
    (hle : fp + 0x20 ≤ limit) :
    Inside (· < limit) (tableArguments mem fp) := by
  rw [tableArguments, inside_bind (dword_value mem _),
    inside_bind (word_value mem _), inside_bind (word_value mem _),
    inside_bind (read_value mem _), inside_bind (read_value mem _)]
  refine ⟨dword_inside (by omega), word_inside (by omega),
    word_inside (by omega), ?_, ?_, inside_pure _ _⟩
  · exact inside_touch.mpr (by omega)
  · exact inside_touch.mpr (by omega)

/-- What `smbios_decode` checks behind the anchor. -/
structure EntryPoint (mem : Memory) (fp : Nat) : Prop where
  sum : byteSum mem fp (mem (fp + 0x05)).toNat % 256 = 0
  dmi : block mem (fp + 0x10) 5 = DMI_ANCHOR
  dmiSum : byteSum mem (fp + 0x10) 0x0F % 256 = 0

theorem entryPoint_iff {mem : Memory} {fp : Nat} :
    EntryPoint mem fp <->
      byteSum mem fp (mem (fp + 0x05)).toNat % 256 = 0 ∧
        block mem (fp + 0x10) 5 = DMI_ANCHOR ∧
          byteSum mem (fp + 0x10) 0x0F % 256 = 0 :=
  ⟨fun h => ⟨h.sum, h.dmi, h.dmiSum⟩, fun h => ⟨h.1, h.2.1, h.2.2⟩⟩

instance (mem : Memory) (fp : Nat) : Decidable (EntryPoint mem fp) :=
  decidable_of_iff _ entryPoint_iff.symm

def entryAt (mem : Memory) (fp : Nat) : Option DmiCall :=
  if EntryPoint mem fp then some (callAt mem fp) else none

theorem entryChecks_value (mem : Memory) (fp : Nat) :
    (entryChecks mem fp (mem (fp + 0x05))).value =
      some (decide (EntryPoint mem fp)) := by
  have hvalue := andAlso_value
    (checksum_value mem fp (mem (fp + 0x05)).toNat)
    (andAlso_value (memcmp_value mem (fp + 0x10) DMI_ANCHOR)
      (checksum_value mem (fp + 0x10) 0x0F))
  rw [← Bool.decide_and, ← Bool.decide_and] at hvalue
  rw [entryChecks, hvalue]
  exact congrArg some (decide_eq_decide.mpr entryPoint_iff.symm)

theorem smbiosDecode_value (mem : Memory) (fp : Nat) :
    (smbiosDecode mem fp).value = some (entryAt mem fp) := by
  unfold entryAt
  rw [smbiosDecode, bind_value (read_value mem _),
    bind_value (entryChecks_value mem fp)]
  by_cases hentry : EntryPoint mem fp
  · rw [if_pos (decide_eq_true hentry), if_pos hentry,
      bind_value (tableArguments_value mem fp)]
    rfl
  · rw [if_neg (by simp [hentry]), if_neg hentry]
    rfl

/-- Of all that is read only the bytes summed up can lie behind the limit. -/
theorem smbiosDecode_inside {mem : Memory} {fp limit : Nat}
    (hle : fp + 0x20 ≤ limit) :
    Inside (· < limit) (smbiosDecode mem fp) <->
      fp + (mem (fp + 0x05)).toNat ≤ limit := by
  have hlength : Inside (· < limit) (read mem (fp + 0x05)) :=
    inside_touch.mpr (by omega)
  have hword : (fp + 0x10) + DMI_ANCHOR.length ≤ limit := by
    change (fp + 0x10) + 5 ≤ limit
    omega
  have hpart : Inside (· < limit) (checksum mem (fp + 0x10) 0x0F) :=
    (checksum_inside (by omega)).mpr (by omega)
  have hdmi := (inside_andAlso (memcmp_value mem (fp + 0x10) DMI_ANCHOR)
    hpart).mpr (memcmp_inside hword)
  have hchecks := inside_andAlso
    (checksum_value mem fp (mem (fp + 0x05)).toNat) hdmi
  rw [checksum_inside (by omega)] at hchecks
  rw [smbiosDecode, inside_bind (read_value mem _),
    inside_bind (entryChecks_value mem fp), entryChecks, hchecks]
  constructor
  · exact fun h => h.right.left
  · refine fun h => ⟨hlength, h, ?_⟩
    split
    · rw [inside_bind (tableArguments_value mem fp)]
      exact ⟨tableArguments_inside hle, inside_pure _ _⟩
    · exact inside_pure _ _

/-!
# The scan
-/

def looksLike (mem : Memory) (k : Nat) : Bool :=
  decide (block mem (16 * k) 4 = SM_ANCHOR) && decide (16 * k ≤ 0xFFE0)

theorem looksLike_limit {mem : Memory} {k : Nat}
    (h : looksLike mem k = true) : k < 0xFFF := by
  rw [looksLike, Bool.and_eq_true, decide_eq_true_eq, decide_eq_true_eq] at h
  have hlimit := h.right
  omega

theorem scanFrom_hit {mem : Memory} {k : Nat} {calls : List DmiCall}
    (h : looksLike mem k = true)
    (hrest : (scanFrom mem (16 * (k + 2))).value = some calls) :
    (scanFrom mem (16 * k)).value =
      some ((entryAt mem (16 * k)).toList ++ calls) := by
  have hk := looksLike_limit h
  have hnext : 16 * k + 16 + 16 = 16 * (k + 2) := by omega
  rw [scanFrom, dif_pos (by omega), bind_value (memcmp_value mem _ _)]
  change (if looksLike mem k = true then _ else _ : Access Nat _).value = _
  rw [if_pos h, bind_value (smbiosDecode_value mem _), hnext,
    bind_value hrest]
  rfl

theorem scanFrom_miss {mem : Memory} {k : Nat} (hk : k < 0x1000)
    (h : looksLike mem k = false) :
    (scanFrom mem (16 * k)).value = (scanFrom mem (16 * (k + 1))).value := by
  rw [scanFrom, dif_pos (by omega), bind_value (memcmp_value mem _ _)]
  change (if looksLike mem k = true then _ else _ : Access Nat _).value = _
  rw [if_neg (by simp [h])]
  rfl

theorem scanFrom_end (mem : Memory) : scanFrom mem (16 * 0x1000) = pure [] := by
  rw [scanFrom, dif_neg (by decide)]

theorem scanFrom_value (mem : Memory) {n k : Nat} (hk : k + n = 0x1000) :
    (scanFrom mem (16 * k)).value =
      some ((skipScan (looksLike mem) n k).filterMap fun j =>
        entryAt mem (16 * j)) := by
  induction n, k using skipScan.induct (looksLike mem) with
  | case1 k =>
      have hend : k = 0x1000 := hk
      rw [hend, scanFrom_end]
      rfl
  | case2 k h =>
      have hlimit := looksLike_limit h
      omega
  | case3 k h =>
      have hend : k + 1 = 0x1000 := hk
      rw [scanFrom_miss (by omega) (Bool.eq_false_iff.mpr h), hend, scanFrom_end,
        skipScan, if_neg h]
      rfl
  | case4 n k h ih =>
      rw [scanFrom_hit h (ih (by omega)), skipScan, if_pos h]
      cases hentry : entryAt mem (16 * k) with
      | none =>
          simp only [List.filterMap_cons, hentry]
          rfl
      | some call =>
          simp only [List.filterMap_cons, hentry]
          rfl
  | case5 n k h ih =>
      rw [scanFrom_miss (by omega) (Bool.eq_false_iff.mpr h), ih (by omega),
        skipScan, if_neg h]

def InChunk (mem : Memory) (fp : Nat) : Prop :=
  fp + (mem (fp + 0x05)).toNat ≤ 0x10000

theorem scanFrom_hit_inside {mem : Memory} {k : Nat} {calls : List DmiCall}
    (h : looksLike mem k = true)
    (hrest : (scanFrom mem (16 * (k + 2))).value = some calls) :
    Inside (· < 0x10000) (scanFrom mem (16 * k)) <->
      InChunk mem (16 * k) ∧
        Inside (· < 0x10000) (scanFrom mem (16 * (k + 2))) := by
  have hk := looksLike_limit h
  have hnext : 16 * k + 16 + 16 = 16 * (k + 2) := by omega
  have hword : 16 * k + SM_ANCHOR.length ≤ 0x10000 := by
    change 16 * k + 4 ≤ 0x10000
    omega
  rw [scanFrom, dif_pos (by omega), inside_bind (memcmp_value mem _ _)]
  change Inside _ _ ∧ Inside _
    (if looksLike mem k = true then _ else _ : Access Nat _) <-> _
  rw [if_pos h, inside_bind (smbiosDecode_value mem _), hnext,
    inside_bind hrest, smbiosDecode_inside (by omega)]
  constructor
  · exact fun hall => ⟨hall.right.left, hall.right.right.left⟩
  · exact fun hall => ⟨memcmp_inside hword, hall.left, hall.right,
      inside_pure _ _⟩

theorem scanFrom_miss_inside {mem : Memory} {k : Nat} (hk : k < 0x1000)
    (h : looksLike mem k = false) :
    Inside (· < 0x10000) (scanFrom mem (16 * k)) <->
      Inside (· < 0x10000) (scanFrom mem (16 * (k + 1))) := by
  have hword : 16 * k + SM_ANCHOR.length ≤ 0x10000 := by
    change 16 * k + 4 ≤ 0x10000
    omega
  rw [scanFrom, dif_pos (by omega), inside_bind (memcmp_value mem _ _)]
  change Inside _ _ ∧ Inside _
    (if looksLike mem k = true then _ else _ : Access Nat _) <-> _
  rw [if_neg (by simp [h])]
  exact and_iff_right (memcmp_inside hword)

theorem scanFrom_inside (mem : Memory) {n k : Nat} (hk : k + n = 0x1000) :
    Inside (· < 0x10000) (scanFrom mem (16 * k)) <->
      forall j, j ∈ skipScan (looksLike mem) n k -> InChunk mem (16 * j) := by
  induction n, k using skipScan.induct (looksLike mem) with
  | case1 k =>
      have hend : k = 0x1000 := hk
      rw [hend, scanFrom_end]
      exact iff_of_true (inside_pure _ _) fun j hj => by cases hj
  | case2 k h =>
      have hlimit := looksLike_limit h
      omega
  | case3 k h =>
      have hend : k + 1 = 0x1000 := hk
      rw [scanFrom_miss_inside (by omega) (Bool.eq_false_iff.mpr h), hend,
        scanFrom_end, skipScan, if_neg h]
      exact iff_of_true (inside_pure _ _) fun j hj => by cases hj
  | case4 n k h ih =>
      have hrest := scanFrom_value mem (show k + 2 + n = 0x1000 by omega)
      rw [scanFrom_hit_inside h hrest, ih (by omega), skipScan, if_pos h,
        List.forall_mem_cons]
  | case5 n k h ih =>
      rw [scanFrom_miss_inside (by omega) (Bool.eq_false_iff.mpr h),
        ih (by omega), skipScan, if_neg h]

/-!
# Reading only the chunk
-/

def memory (image behind : Memory) : Memory := fun i =>
  if i < 0x10000 then image i else behind i

theorem memory_of_lt {image behind : Memory} {i : Nat} (h : i < 0x10000) :
    memory image behind i = image i := if_pos h

structure Visited (image : Memory) (k : Nat) : Prop where
  looks : looksLike image k = true
  even : Even (runBefore (looksLike image) k)

theorem looksLike_memory (image behind : Memory) {k : Nat} (hk : k < 0x1000) :
    looksLike (memory image behind) k = looksLike image k := by
  unfold looksLike
  rw [block_congr fun i hi => memory_of_lt (by omega)]

theorem mem_skipScan_memory {image behind : Memory} {k : Nat} :
    k ∈ skipScan (looksLike (memory image behind)) 0x1000 0 <->
      Visited image k := by
  rw [mem_skipScan]
  constructor
  · rintro ⟨hk, hlooks, heven⟩
    rw [looksLike_memory image behind hk] at hlooks
    rw [runBefore_congr fun j hj =>
      looksLike_memory image behind (Nat.lt_trans hj hk)] at heven
    exact ⟨hlooks, heven⟩
  · rintro ⟨hlooks, heven⟩
    have hk : k < 0x1000 := Nat.lt_succ_of_lt (looksLike_limit hlooks)
    rw [looksLike_memory image behind hk, runBefore_congr fun j hj =>
      looksLike_memory image behind (Nat.lt_trans hj hk)]
    exact ⟨hk, hlooks, heven⟩

/-- Every byte read lies in the chunk, whatever is behind it. -/
def ReadsChunkOnly (image : Memory) : Prop :=
  forall behind, Inside (· < 0x10000) (doDmiDecode (memory image behind))

theorem inChunk_memory {image behind : Memory} {k : Nat}
    (h : Visited image k) :
    InChunk (memory image behind) (16 * k) <-> InChunk image (16 * k) := by
  have hk := looksLike_limit h.looks
  unfold InChunk
  rw [memory_of_lt (by omega)]

theorem doDmiDecode_inside (image behind : Memory) :
    Inside (· < 0x10000) (doDmiDecode (memory image behind)) <->
      forall k, Visited image k -> InChunk image (16 * k) := by
  have hfront := scanFrom_inside (memory image behind)
    (show 0 + 0x1000 = 0x1000 from rfl)
  refine hfront.trans (forall_congr' fun k => ?_)
  rw [mem_skipScan_memory]
  exact imp_congr_right fun hvisited => inChunk_memory hvisited

/-- The scan reads its chunk only, exactly when no paragraph that it takes for an
entry point says that it is longer than what is left of the chunk. -/
theorem readsChunkOnly_iff (image : Memory) :
    ReadsChunkOnly image <->
      forall k, Visited image k -> InChunk image (16 * k) := by
  constructor
  · exact fun h => (doDmiDecode_inside image image).mp (h image)
  · exact fun h behind => (doDmiDecode_inside image behind).mpr h

/-- An anchor in the last paragraph but one that says it has 64 bytes. -/
def longAnchor : Memory := fun i =>
  if i < 0xFFE0 then 0
  else if i < 0xFFE4 then SM_ANCHOR.getD (i - 0xFFE0) 0
  else if i = 0xFFE5 then 0x40 else 0

theorem longAnchor_outside : ¬ ReadsChunkOnly longAnchor := by
  intro hreads
  have hbefore : looksLike longAnchor 0xFFD = false := by decide
  have hvisited : Visited longAnchor 0xFFE :=
    ⟨by decide, even_runBefore_of_miss hbefore⟩
  have hchunk := (doDmiDecode_inside longAnchor longAnchor).mp
    (hreads longAnchor) 0xFFE hvisited
  exact absurd hchunk (by unfold InChunk; decide)

/-!
# Finding the entry points
-/

structure ValidAnchor (image : Memory) (fp : Nat) : Prop where
  paragraph : 16 ∣ fp
  limit : fp ≤ 0xFFE0
  anchor : block image fp 4 = SM_ANCHOR
  dmi : block image (fp + 0x10) 5 = DMI_ANCHOR
  inside : fp + (image (fp + 0x05)).toNat ≤ 0x10000
  sum : byteSum image fp (image (fp + 0x05)).toNat % 256 = 0
  dmiSum : byteSum image (fp + 0x10) 0x0F % 256 = 0

/-- `dmi_table` is called once for each valid entry point, with what the entry
point says, in increasing order, and for nothing else. -/
def FindsEntryPoints (image : Memory) : Prop :=
  forall behind, exists calls,
    (doDmiDecode (memory image behind)).value = some calls ∧
      calls.Pairwise (fun c c' => c.fp < c'.fp) ∧
        forall call, call ∈ calls <->
          exists fp, ValidAnchor image fp ∧ call = callAt image fp

/-- The conditions under which the scan does so: a valid entry point does not
stand behind an odd number of paragraphs that begin like one, and no paragraph
that the scan takes for an entry point, and that is one but for its first
checksum, says that it is longer than what is left of the chunk. -/
structure Findable (image : Memory) : Prop where
  seen : forall k, ValidAnchor image (16 * k) ->
    Even (runBefore (looksLike image) k)
  chunk : forall k, Visited image k ->
    block image (16 * k + 0x10) 5 = DMI_ANCHOR ->
      byteSum image (16 * k + 0x10) 0x0F % 256 = 0 -> InChunk image (16 * k)

theorem entryAt_eq_some {mem : Memory} {fp : Nat} {call : DmiCall} :
    entryAt mem fp = some call <->
      EntryPoint mem fp ∧ call = callAt mem fp := by
  unfold entryAt
  by_cases hentry : EntryPoint mem fp
  · rw [if_pos hentry, Option.some.injEq, and_iff_right hentry]
    exact eq_comm
  · rw [if_neg hentry]
    exact iff_of_false (by simp) fun h => hentry h.left

theorem doDmiDecode_value (image behind : Memory) :
    exists calls, (doDmiDecode (memory image behind)).value = some calls ∧
      calls.Pairwise (fun c c' => c.fp < c'.fp) ∧
        forall call, call ∈ calls <->
          exists k, Visited image k ∧
            EntryPoint (memory image behind) (16 * k) ∧
              call = callAt (memory image behind) (16 * k) := by
  refine ⟨_, scanFrom_value (memory image behind)
    (show 0 + 0x1000 = 0x1000 from rfl), ?_, ?_⟩
  · refine List.Pairwise.filterMap _ ?_ skipScan_sorted
    intro j j' hlt call hcall call' hcall'
    rw [(entryAt_eq_some.mp hcall).right, (entryAt_eq_some.mp hcall').right]
    exact Nat.mul_lt_mul_of_pos_left hlt (by decide)
  · intro call
    rw [List.mem_filterMap]
    apply exists_congr
    intro k
    rw [mem_skipScan_memory, entryAt_eq_some]

theorem byteSum_congr {mem mem' : Memory} {start n : Nat}
    (h : forall i, i < start + n -> mem i = mem' i) :
    byteSum mem start n = byteSum mem' start n := by
  unfold byteSum
  rw [block_congr h]

theorem byteSum_add (mem : Memory) (start m n : Nat) :
    byteSum mem start (m + n) =
      byteSum mem start m + byteSum mem (start + m) n := by
  unfold byteSum block
  rw [← List.range'_append_1, List.map_append, List.map_append,
    List.sum_append]

theorem byteSum_zero {mem : Memory} {start n : Nat}
    (h : forall i, start ≤ i -> mem i = 0) : byteSum mem start n = 0 := by
  induction n generalizing start with
  | zero => rfl
  | succ n ih =>
      rw [byteSum_succ, h start (Nat.le_refl _),
        ih fun i hi => h i (Nat.le_of_succ_le hi)]
      rfl

def balancing (sum : Nat) : Memory := fun i =>
  if i = 0x10000 then -UInt8.ofNat sum else 0

/-- Bytes behind the chunk can make up for any sum. -/
theorem balancing_sum (image : Memory) {fp len : Nat} (hfp : fp ≤ 0x10000)
    (hlong : 0x10000 < fp + len) :
    byteSum (memory image (balancing (byteSum image fp (0x10000 - fp)))) fp
      len % 256 = 0 := by
  rcases Nat.exists_eq_add_of_lt hlong with ⟨n, hn⟩
  have hlen : len = (0x10000 - fp) + (n + 1) := by omega
  have hstart : fp + (0x10000 - fp) = 0x10000 := by omega
  have hfront : forall behind, byteSum (memory image behind) fp (0x10000 - fp) =
      byteSum image fp (0x10000 - fp) :=
    fun behind => byteSum_congr fun i hi => memory_of_lt (by omega)
  generalize byteSum image fp (0x10000 - fp) = sum at hfront
  have hrest : byteSum (memory image (balancing sum)) (0x10000 + 1) n = 0 := by
    apply byteSum_zero
    intro i hi
    rw [memory, if_neg (by omega), balancing, if_neg (by omega)]
  have hbyte : memory image (balancing sum) 0x10000 = -UInt8.ofNat sum := rfl
  rw [hlen, byteSum_add, hstart, byteSum_succ, hfront, hrest, hbyte,
    UInt8.toNat_neg, UInt8.toNat_ofNat']
  change (sum + ((256 - sum % 256) % 256 + 0)) % 256 = 0
  omega

theorem callAt_memory (image behind : Memory) {fp : Nat} (hfp : fp ≤ 0xFFE0) :
    callAt (memory image behind) fp = callAt image fp := by
  unfold callAt
  rw [block_congr fun i hi => memory_of_lt (by omega),
    block_congr fun i hi => memory_of_lt (by omega),
    block_congr fun i hi => memory_of_lt (by omega),
    memory_of_lt (by omega), memory_of_lt (by omega)]

theorem entryPoint_memory {image behind : Memory} {fp : Nat}
    (hfp : fp ≤ 0xFFE0) (hchunk : InChunk image fp) :
    EntryPoint (memory image behind) fp <-> EntryPoint image fp := by
  unfold InChunk at hchunk
  rw [entryPoint_iff, entryPoint_iff,
    memory_of_lt (show fp + 0x05 < 0x10000 by omega),
    byteSum_congr fun i hi => memory_of_lt (by omega),
    block_congr fun i hi => memory_of_lt (by omega),
    byteSum_congr fun i hi => memory_of_lt (by omega)]

theorem part_memory {image behind : Memory} {fp : Nat} (hfp : fp ≤ 0xFFE0)
    (h : EntryPoint (memory image behind) fp) :
    block image (fp + 0x10) 5 = DMI_ANCHOR ∧
      byteSum image (fp + 0x10) 0x0F % 256 = 0 := by
  have hdmi := h.dmi
  have hsum := h.dmiSum
  rw [block_congr fun i hi => memory_of_lt (by omega)] at hdmi
  rw [byteSum_congr fun i hi => memory_of_lt (by omega)] at hsum
  exact ⟨hdmi, hsum⟩

theorem validAnchor_visited {image : Memory} {k : Nat}
    (h : ValidAnchor image (16 * k))
    (heven : Even (runBefore (looksLike image) k)) : Visited image k := by
  refine ⟨?_, heven⟩
  rw [looksLike, Bool.and_eq_true, decide_eq_true_eq, decide_eq_true_eq]
  exact ⟨h.anchor, h.limit⟩

theorem Visited.anchor {image : Memory} {k : Nat} (h : Visited image k) :
    block image (16 * k) 4 = SM_ANCHOR ∧ 16 * k ≤ 0xFFE0 := by
  have hlooks := h.looks
  rw [looksLike, Bool.and_eq_true, decide_eq_true_eq, decide_eq_true_eq]
    at hlooks
  exact hlooks

theorem findable_of_finds {image : Memory} (h : FindsEntryPoints image) :
    Findable image := by
  constructor
  · intro k hvalid
    rcases h image with ⟨calls, hvalue, _, hmem⟩
    rcases doDmiDecode_value image image with ⟨calls', hvalue', _, hmem'⟩
    rw [hvalue, Option.some.injEq] at hvalue'
    rw [← hvalue'] at hmem'
    have hcall := (hmem _).mpr ⟨16 * k, hvalid, rfl⟩
    rcases (hmem' _).mp hcall with ⟨j, hvisited, _, heq⟩
    have hfp : 16 * k = 16 * j := congrArg DmiCall.fp heq
    have hkj : k = j := by omega
    rw [hkj]
    exact hvisited.even
  · intro k hvisited hdmi hsum
    have hlimit := hvisited.anchor.right
    by_contra hlong
    have hlong' := Nat.lt_of_not_le hlong
    -- some memory behind the chunk makes the scan take the entry point
    have hzero := balancing_sum image (show 16 * k ≤ 0x10000 by omega) hlong'
    generalize balancing _ = behind at hzero
    have hentry : EntryPoint (memory image behind) (16 * k) := by
      constructor
      · rw [memory_of_lt (by omega)]
        exact hzero
      · rw [block_congr fun i hi => memory_of_lt (by omega)]
        exact hdmi
      · rw [byteSum_congr fun i hi => memory_of_lt (by omega)]
        exact hsum
    rcases h behind with ⟨calls, hvalue, _, hmem⟩
    rcases doDmiDecode_value image behind with ⟨calls', hvalue', _, hmem'⟩
    rw [hvalue, Option.some.injEq] at hvalue'
    rw [← hvalue'] at hmem'
    have hcall := (hmem' _).mpr ⟨k, hvisited, hentry, rfl⟩
    rcases (hmem _).mp hcall with ⟨fp, hvalid, heq⟩
    have hfp : 16 * k = fp := congrArg DmiCall.fp heq
    rw [← hfp] at hvalid
    exact hlong hvalid.inside

theorem finds_of_findable {image : Memory} (h : Findable image) :
    FindsEntryPoints image := by
  intro behind
  rcases doDmiDecode_value image behind with ⟨calls, hvalue, hsorted, hmem⟩
  refine ⟨calls, hvalue, hsorted, fun call => (hmem call).trans ?_⟩
  constructor
  · rintro ⟨k, hvisited, hentry, hcall⟩
    rcases hvisited.anchor with ⟨hanchor, hlimit⟩
    rcases part_memory hlimit hentry with ⟨hdmi, hsum⟩
    have hchunk := h.chunk k hvisited hdmi hsum
    have himage := (entryPoint_memory hlimit hchunk).mp hentry
    rw [callAt_memory image behind hlimit] at hcall
    exact ⟨16 * k, ⟨Nat.dvd_mul_right 16 k, hlimit, hanchor, hdmi, hchunk,
      himage.sum, hsum⟩, hcall⟩
  · rintro ⟨fp, hvalid, hcall⟩
    rcases hvalid.paragraph with ⟨k, hk⟩
    rw [hk] at hvalid hcall
    have hentry : EntryPoint image (16 * k) :=
      ⟨hvalid.sum, hvalid.dmi, hvalid.dmiSum⟩
    rw [← callAt_memory image behind hvalid.limit] at hcall
    exact ⟨k, validAnchor_visited hvalid (h.seen k hvalid),
      (entryPoint_memory hvalid.limit hvalid.inside).mpr hentry, hcall⟩

/-- The scan calls `dmi_table` for the valid entry points exactly when they are
findable. -/
theorem findsEntryPoints_iff (image : Memory) :
    FindsEntryPoints image <-> Findable image :=
  ⟨findable_of_finds, finds_of_findable⟩

/-- A valid entry point in the second paragraph, behind one that only begins like
one. -/
def hiddenAnchor : Memory := fun i =>
  List.getD
    [0x5F, 0x53, 0x4D, 0x5F, 0, 0, 0, 0, 0, 0, 0, 0, 0, 0, 0, 0,
      0x5F, 0x53, 0x4D, 0x5F, 0x7D, 0x1F, 0x02, 0x04,
      0x00, 0x00, 0x00, 0x00, 0x00, 0x00, 0x00, 0x00,
      0x5F, 0x44, 0x4D, 0x49, 0x5F, 0x10, 0x40, 0x01,
      0x00, 0xE0, 0x0E, 0x00, 0x05, 0x00, 0x24] i 0

theorem hiddenAnchor_valid : ValidAnchor hiddenAnchor (16 * 1) := by
  constructor <;> decide

theorem hiddenAnchor_not_found : ¬ FindsEntryPoints hiddenAnchor := by
  intro hfinds
  have heven := (findable_of_finds hfinds).seen 1 hiddenAnchor_valid
  exact absurd heven (by decide)

end Dmi
end Breakin
