import Breakin.Dmi.Strings
import Breakin.Stats.DumpStats
import Breakin.Util.Trim

/-!
# Walking the DMI table

`dmi_table` takes the structures one after the other: it looks for the two NULs
behind the strings of a structure and decodes the structure when they lie inside
the table.
-/

namespace Breakin
namespace Dmi

open Foundation
open Util
open Stats

/-- The size of every array in `struct dmi_data_t`. -/
def DMI_FIELD : Nat := 50

/-- One `snprintf(dmi_data.field, 50, "%s", dmi_string(h, data[k]))`: the text that
is stored, and the table with the string filtered. -/
def dmiField (buf : List UInt8) (pos k : Nat) :
    Option (CString × List UInt8) := do
  let s ← buf[pos + k]?
  let (ptr, buf') ← dmiString buf pos s.toNat
  let text ← readString buf' ptr
  some (snprintf DMI_FIELD text, buf')

/-- 3.3.1 BIOS Information -/
def decodeBios (buf : List UInt8) (pos : Nat) (d : DmiData) :
    Option (DmiData × List UInt8) := do
  let (vendor, buf) ← dmiField buf pos 4
  let (version, buf) ← dmiField buf pos 5
  let (date, buf) ← dmiField buf pos 6
  some
    ({ d with biosVendor := vendor, biosVersion := version, biosDate := date },
      buf)

def fourFields (buf : List UInt8) (pos : Nat) :
    Option ((CString × CString × CString × CString) × List UInt8) := do
  let (vendor, buf) ← dmiField buf pos 4
  let (product, buf) ← dmiField buf pos 5
  let (version, buf) ← dmiField buf pos 6
  let (serial, buf) ← dmiField buf pos 7
  some ((vendor, product, version, serial), buf)

/-- 3.3.2 System Information -/
def decodeSystem (buf : List UInt8) (pos : Nat) (d : DmiData) :
    Option (DmiData × List UInt8) := do
  let ((vendor, product, version, serial), buf) ← fourFields buf pos
  some
    ({ d with
        sysVendor := vendor
        sysProduct := product
        sysVersion := version
        sysSerial := serial },
      buf)

/-- 3.3.3 Base Board Information -/
def decodeBoard (buf : List UInt8) (pos : Nat) (d : DmiData) :
    Option (DmiData × List UInt8) := do
  let ((vendor, product, version, serial), buf) ← fourFields buf pos
  some
    ({ d with
        boardVendor := vendor
        boardProduct := product
        boardVersion := version
        boardSerial := serial },
      buf)

def trimFields (d : DmiData) : DmiData :=
  { d with
    boardVendor := trim d.boardVendor
    boardProduct := trim d.boardProduct
    biosVersion := trim d.biosVersion }

/-- The `switch` of `dmi_decode`. -/
def decodeType (type length : UInt8) (buf : List UInt8) (pos : Nat)
    (d : DmiData) : Option (DmiData × List UInt8) :=
  if type = 0 then
    if length < 0x12 then some (d, buf) else decodeBios buf pos d
  else if type = 1 then
    if length < 0x08 then some (d, buf) else decodeSystem buf pos d
  else if type = 2 then
    if length < 0x08 then some (d, buf) else decodeBoard buf pos d
  else some (d, buf)

def dmiDecode (buf : List UInt8) (pos : Nat) (d : DmiData) :
    Option (DmiData × List UInt8) := do
  let type ← buf[pos]?
  let length ← buf[pos + 1]?
  let (d', buf') ← decodeType type length buf pos d
  some (trimFields d', buf')

/-- `while(next-buf+1<len && (next[0]!=0 || next[1]!=0)) next++;` -/
def findNext (buf : List UInt8) (len : Nat) : Nat -> Nat -> Option Nat
  | 0, _ => none
  | fuel + 1, next =>
      if next + 1 < len then do
        let a ← buf[next]?
        if a ≠ 0 then findNext buf len fuel (next + 1)
        else
          let b ← buf[next + 1]?
          if b ≠ 0 then findNext buf len fuel (next + 1) else some next
      else some next

/-- The loop of `dmi_table`, with the number of structures still to come. -/
def dmiLoop (len : Nat) : Nat -> Nat -> List UInt8 -> DmiData -> Option DmiData
  | 0, _, _, d => some d
  | n + 1, pos, buf, d =>
      if pos + 4 ≤ len then do
        let length ← buf[pos + 1]?
        let stop ← findNext buf len (len + 1) (pos + length.toNat)
        let next := stop + 2
        let (d', buf') ←
          if next ≤ len then dmiDecode buf pos d else some (d, buf)
        dmiLoop len n next buf' d'
      else some d

/-- `dmi_table` with what `mem_chunk` returned. -/
def dmiTable (chunk : Option (List UInt8)) (num : Nat) (d : DmiData) :
    Option DmiData :=
  match chunk with
  | none => some d
  | some buf => dmiLoop buf.length num 0 buf d

/-!
# The end of a structure
-/

/-- The search ends, not before its start, and inside the table only at two
NULs. -/
theorem findNext_stops {buf : List UInt8} {fuel start : Nat}
    (hfuel : buf.length - start < fuel) :
    exists stop, findNext buf buf.length fuel start = some stop ∧
      start ≤ stop ∧
        (stop + 2 ≤ buf.length ->
          buf[stop]? = some 0 ∧ buf[stop + 1]? = some 0) := by
  induction fuel generalizing start with
  | zero => omega
  | succ fuel ih =>
      unfold findNext
      by_cases hstart : start + 1 < buf.length
      · have hnext : exists stop,
            findNext buf buf.length fuel (start + 1) = some stop ∧
              start ≤ stop ∧
                (stop + 2 ≤ buf.length ->
                  buf[stop]? = some 0 ∧ buf[stop + 1]? = some 0) := by
          rcases ih (show buf.length - (start + 1) < fuel by omega)
            with ⟨stop, hfind, hle, hnuls⟩
          exact ⟨stop, hfind, by omega, hnuls⟩
        have ha : buf[start]? = some buf[start] :=
          List.getElem?_eq_getElem (by omega)
        have hb : buf[start + 1]? = some buf[start + 1] :=
          List.getElem?_eq_getElem hstart
        rw [if_pos hstart, ha, hb]
        simp only [Option.bind_eq_bind, Option.bind_some]
        by_cases hazero : buf[start] = 0
        · rw [if_neg (by simp [hazero])]
          by_cases hbzero : buf[start + 1] = 0
          · rw [if_neg (by simp [hbzero])]
            refine ⟨start, rfl, Nat.le_refl _, fun _ => ?_⟩
            rw [ha, hb, hazero, hbzero]
            exact ⟨rfl, rfl⟩
          · rw [if_pos hbzero]
            exact hnext
        · rw [if_pos hazero]
          exact hnext
      · rw [if_neg hstart]
        exact ⟨start, rfl, Nat.le_refl _, fun hle => absurd hle (by omega)⟩

theorem findNext_total (buf : List UInt8) (start : Nat) :
    exists stop, findNext buf buf.length (buf.length + 1) start = some stop ∧
      start ≤ stop ∧
        (stop + 2 ≤ buf.length ->
          buf[stop]? = some 0 ∧ buf[stop + 1]? = some 0) :=
  findNext_stops (by omega)

theorem cut_at_end {buf : List UInt8} {start stop : Nat} (hle : start ≤ stop)
    (hzero : buf[stop]? = some 0) (hzero' : buf[stop + 1]? = some 0) :
    exists front w, front.length = start ∧
      buf.take (stop + 2) = front ++ (w ++ [0, 0]) := by
  have hlength : stop + 1 < buf.length := by
    rcases List.getElem?_eq_some_iff.mp hzero' with ⟨h, _⟩
    exact h
  exists buf.take start
  exists (buf.drop start).take (stop - start)
  constructor
  · rw [List.length_take]
    omega
  · have htwo : buf.take (stop + 2) = buf.take stop ++ [0, 0] := by
      rw [List.take_add_one, List.take_add_one, hzero, hzero']
      simp
    have hone : buf.take stop =
        buf.take start ++ (buf.drop start).take (stop - start) := by
      have hsum : stop = start + (stop - start) := by omega
      conv => lhs; rw [hsum, List.take_add]
    rw [htwo, hone, List.append_assoc]

/-!
# Inside the structure

All that the decoder does for a structure stays in front of the two NULs, whatever
follows them.
-/

def Terminated (area : List UInt8) : Prop :=
  area = [0] ∨ exists w, area = w ++ [0, 0]

theorem Terminated.zero_mem {area : List UInt8} (h : Terminated area) :
    0 ∈ area := by
  rcases h with h | ⟨w, h⟩
  · simp [h]
  · simp [h]

theorem Terminated.rest {y z : List UInt8} (h : Terminated (y ++ 0 :: z))
    (hy : 0 ∉ y) (hne : y ≠ []) : Terminated z := by
  rcases h with h | ⟨w, h⟩
  · have hlen := congrArg List.length h
    have hpos := List.length_pos_iff.mpr hne
    simp only [List.length_append, List.length_cons, List.length_nil] at hlen
    omega
  · have hw : w ++ [0, 0] = (w ++ [0]) ++ [0] := by simp
    rw [hw] at h
    rcases List.eq_nil_or_concat z with hnil | ⟨z1, c, hz⟩
    · -- the string would hold the first of the two NULs
      rw [hnil] at h
      have hy' := (List.append_inj' h rfl).left
      exact absurd (by simp [hy']) hy
    · rw [List.concat_eq_append] at hz
      rw [hz, ← List.cons_append, ← List.append_assoc] at h
      rcases List.append_inj' h rfl with ⟨hfront, hc⟩
      rw [List.cons.injEq] at hc
      rcases List.eq_nil_or_concat z1 with hnil | ⟨z2, c', hz1⟩
      · left
        rw [hz, hnil, hc.left]
        rfl
      · rw [List.concat_eq_append] at hz1
        rw [hz1, ← List.cons_append, ← List.append_assoc] at hfront
        have hc' := (List.append_inj' hfront rfl).right
        rw [List.cons.injEq] at hc'
        right
        exists z2
        rw [hz, hz1, hc.left, hc'.left]
        simp

theorem skipLoop_within (front : List UInt8) {area : List UInt8}
    (h : Terminated area) (s : Nat) :
    exists x y z, area = x ++ (y ++ 0 :: z) ∧ 0 ∉ y ∧
      Terminated (y ++ 0 :: z) ∧
        forall post, skipLoop (front ++ (area ++ post)) s front.length =
          some (front ++ x).length := by
  rcases exists_string h.zero_mem with ⟨y0, z0, hy0, harea⟩
  induction s generalizing front area y0 z0 with
  | zero =>
      refine ⟨[], y0, z0, harea, hy0, harea ▸ h, fun post => ?_⟩
      rw [skipLoop_one _ (Nat.zero_le 1), List.append_nil]
  | succ s ih =>
      cases s with
      | zero =>
          refine ⟨[], y0, z0, harea, hy0, harea ▸ h, fun post => ?_⟩
          rw [skipLoop_one _ (Nat.le_refl 1), List.append_nil]
      | succ s =>
          cases y0 with
          | nil =>
              refine ⟨[], [], z0, harea, hy0, harea ▸ h, fun post => ?_⟩
              rw [harea, List.nil_append, List.cons_append, skipLoop_end,
                List.append_nil]
          | cons c t =>
              rw [harea] at h
              have hrest : Terminated z0 := h.rest hy0 (by simp)
              rcases exists_string hrest.zero_mem with ⟨y1, z1, hy1, hz0⟩
              rcases ih (front ++ c :: t ++ [0]) hrest y1 z1 hy1 hz0
                with ⟨x, y, z, hsplit, hy, hleft, hskip⟩
              refine ⟨c :: t ++ 0 :: x, y, z, ?_, hy, hleft, fun post => ?_⟩
              · rw [harea, hsplit]
                simp
              · have hstep := skipLoop_string front (z0 ++ post) hy0 s
                have hnext := hskip post
                have hbuf : front ++ (c :: t ++ 0 :: (z0 ++ post)) =
                    front ++ c :: t ++ [0] ++ (z0 ++ post) := by simp
                rw [← hbuf] at hnext
                rw [harea]
                simp only [List.cons_append, List.append_assoc] at hstep hnext ⊢
                rw [hstep, hnext]
                simp

theorem dmiString_within {front w : List UInt8} {pos : Nat} {length : UInt8}
    (hfront : front.length = pos + length.toNat)
    (hlength : (front ++ (w ++ [0, 0]))[pos + 1]? = some length)
    (index : Nat) :
    exists ptr text w', w'.length = w.length ∧
      forall post,
        dmiString (front ++ (w ++ [0, 0] ++ post)) pos index =
            some (ptr, front ++ (w' ++ [0, 0] ++ post)) ∧
          readString (front ++ (w' ++ [0, 0] ++ post)) ptr = some text := by
  by_cases hindex : index = 0
  · refine ⟨.literal "Not Specified", _, w, rfl, fun post => ⟨?_, rfl⟩⟩
    unfold dmiString
    rw [if_pos hindex]
  · have hterm : Terminated (w ++ [0, 0]) := Or.inr ⟨w, rfl⟩
    have hread : forall post,
        (front ++ (w ++ [0, 0] ++ post))[pos + 1]? = some length := by
      intro post
      rw [← List.append_assoc]
      exact (List.getElem?_append_left
        (List.getElem?_eq_some_iff.mp hlength).1).trans hlength
    rcases skipLoop_within front hterm index with ⟨x, y, z, harea, hy, hleft, hskip⟩
    rw [hfront] at hskip
    by_cases hne : y = []
    · refine ⟨.literal "<bad index>", _, w, rfl, fun post => ⟨?_, rfl⟩⟩
      have hbuf : front ++ (w ++ [0, 0] ++ post) =
          (front ++ x) ++ 0 :: (z ++ post) := by
        rw [harea, hne]
        simp
      exact dmiString_bad hindex hbuf (hread post) (hskip post)
    · have hstring : forall post, dmiString (front ++ (w ++ [0, 0] ++ post)) pos
          index = some (.table (front ++ x).length,
            front ++ x ++ (y.map filterByte ++ 0 :: (z ++ post))) := by
        intro post
        refine dmiString_string hindex ?_ hy hne (hread post) (hskip post)
        rw [harea]
        simp
      have hcopy : forall post, readString
          (front ++ x ++ (y.map filterByte ++ 0 :: (z ++ post)))
          (.table (front ++ x).length) = some ((y.map filterByte).map charOf) :=
        fun post => readString_table _ _ (zero_notMem_filter y)
      -- the two NULs are behind the string, and stay
      have hkept : exists w', w'.length = w.length ∧
          w' ++ [0, 0] = x ++ (y.map filterByte ++ 0 :: z) := by
        have hlen := congrArg List.length harea
        simp only [List.length_append, List.length_cons, List.length_nil] at hlen
        rcases hleft.rest hy hne with hz | ⟨z', hz⟩
        · exists x ++ y.map filterByte
          rw [hz] at hlen ⊢
          simp only [List.length_append, List.length_map, List.length_cons,
            List.length_nil] at hlen ⊢
          exact ⟨by omega, by simp⟩
        · exists x ++ y.map filterByte ++ 0 :: z'
          rw [hz] at hlen ⊢
          simp only [List.length_append, List.length_map, List.length_cons,
            List.length_nil] at hlen ⊢
          exact ⟨by omega, by simp⟩
      rcases hkept with ⟨w', hw', harea'⟩
      refine ⟨.table (front ++ x).length, (y.map filterByte).map charOf, w', hw',
        fun post => ?_⟩
      have hbuf : front ++ (w' ++ [0, 0] ++ post) =
          front ++ x ++ (y.map filterByte ++ 0 :: (z ++ post)) := by
        rw [harea']
        simp
      rw [hbuf]
      exact ⟨hstring post, hcopy post⟩

/-!
# Decoding stays inside
-/

section Within

variable {front : List UInt8} {pos : Nat} {length : UInt8}

/-- A step of the decoder that works on the structure alone: from any string set
`w` it comes to some result and another set of the same size, whatever follows. -/
def Within {result : Type} (front w : List UInt8)
    (step : List UInt8 -> Option (result × List UInt8)) : Prop :=
  exists r w', w'.length = w.length ∧
    forall post, step (front ++ (w ++ [0, 0] ++ post)) =
      some (r, front ++ (w' ++ [0, 0] ++ post))

theorem dmiField_within (hfront : front.length = pos + length.toNat)
    (hlength : front[pos + 1]? = some length) {k : Nat}
    (hk : k < length.toNat) (w : List UInt8) :
    Within front w fun buf => dmiField buf pos k := by
  have hkfront : pos + k < front.length := by omega
  have hheader : (front ++ (w ++ [0, 0]))[pos + 1]? = some length :=
    (List.getElem?_append_left
      (List.getElem?_eq_some_iff.mp hlength).1).trans hlength
  rcases dmiString_within hfront hheader front[pos + k].toNat
    with ⟨ptr, text, w', hw', hall⟩
  refine ⟨snprintf DMI_FIELD text, w', hw', fun post => ?_⟩
  have hread : (front ++ (w ++ [0, 0] ++ post))[pos + k]? =
      some front[pos + k] := by
    rw [List.getElem?_append_left hkfront]
    exact List.getElem?_eq_getElem hkfront
  simp only [dmiField, hread, (hall post).left, (hall post).right,
    Option.bind_eq_bind, Option.bind_some]

theorem decodeBios_within (hfront : front.length = pos + length.toNat)
    (hlength : front[pos + 1]? = some length) (hlong : 7 ≤ length.toNat)
    (w : List UInt8) (d : DmiData) :
    Within front w fun buf => decodeBios buf pos d := by
  rcases dmiField_within hfront hlength (k := 4) (by omega) w
    with ⟨r4, w4, hw4, h4⟩
  rcases dmiField_within hfront hlength (k := 5) (by omega) w4
    with ⟨r5, w5, hw5, h5⟩
  rcases dmiField_within hfront hlength (k := 6) (by omega) w5
    with ⟨r6, w6, hw6, h6⟩
  refine ⟨{ d with biosVendor := r4, biosVersion := r5, biosDate := r6 },
    w6, by rw [hw6, hw5, hw4], fun post => ?_⟩
  simp only [decodeBios, h4, h5, h6, Option.bind_eq_bind, Option.bind_some]

theorem fourFields_within (hfront : front.length = pos + length.toNat)
    (hlength : front[pos + 1]? = some length) (hlong : 8 ≤ length.toNat)
    (w : List UInt8) : Within front w fun buf => fourFields buf pos := by
  rcases dmiField_within hfront hlength (k := 4) (by omega) w
    with ⟨r4, w4, hw4, h4⟩
  rcases dmiField_within hfront hlength (k := 5) (by omega) w4
    with ⟨r5, w5, hw5, h5⟩
  rcases dmiField_within hfront hlength (k := 6) (by omega) w5
    with ⟨r6, w6, hw6, h6⟩
  rcases dmiField_within hfront hlength (k := 7) (by omega) w6
    with ⟨r7, w7, hw7, h7⟩
  refine ⟨(r4, r5, r6, r7), w7, by rw [hw7, hw6, hw5, hw4], fun post => ?_⟩
  simp only [fourFields, h4, h5, h6, h7, Option.bind_eq_bind,
    Option.bind_some]

theorem decodeSystem_within (hfront : front.length = pos + length.toNat)
    (hlength : front[pos + 1]? = some length) (hlong : 8 ≤ length.toNat)
    (w : List UInt8) (d : DmiData) :
    Within front w fun buf => decodeSystem buf pos d := by
  rcases fourFields_within hfront hlength hlong w with
    ⟨⟨vendor, product, version, serial⟩, w', hw', hfour⟩
  exists
    { d with
      sysVendor := vendor
      sysProduct := product
      sysVersion := version
      sysSerial := serial }
  refine ⟨w', hw', fun post => ?_⟩
  simp only [decodeSystem, hfour, Option.bind_eq_bind, Option.bind_some]

theorem decodeBoard_within (hfront : front.length = pos + length.toNat)
    (hlength : front[pos + 1]? = some length) (hlong : 8 ≤ length.toNat)
    (w : List UInt8) (d : DmiData) :
    Within front w fun buf => decodeBoard buf pos d := by
  rcases fourFields_within hfront hlength hlong w with
    ⟨⟨vendor, product, version, serial⟩, w', hw', hfour⟩
  exists
    { d with
      boardVendor := vendor
      boardProduct := product
      boardVersion := version
      boardSerial := serial }
  refine ⟨w', hw', fun post => ?_⟩
  simp only [decodeBoard, hfour, Option.bind_eq_bind, Option.bind_some]

theorem within_nothing (front w : List UInt8) (d : DmiData) :
    Within front w fun buf => some (d, buf) :=
  ⟨d, w, rfl, fun _ => rfl⟩

theorem decodeType_within (type : UInt8)
    (hfront : front.length = pos + length.toNat) {w : List UInt8}
    (hlength : (front ++ (w ++ [0, 0]))[pos + 1]? = some length)
    (d : DmiData) :
    Within front w fun buf => decodeType type length buf pos d := by
  have hheader : 8 ≤ length.toNat -> front[pos + 1]? = some length := by
    intro hlong
    rw [← hlength]
    exact (List.getElem?_append_left (by omega)).symm
  unfold decodeType
  by_cases h0 : type = 0
  · by_cases hshort : length < 0x12
    · simp only [h0, if_true, hshort]
      exact within_nothing front w d
    · have hlong : 0x12 ≤ length.toNat := by
        rw [UInt8.lt_iff_toNat_lt] at hshort
        exact Nat.le_of_not_lt hshort
      simp only [h0, if_true, hshort, if_false]
      exact decodeBios_within hfront (hheader (by omega)) (by omega) w d
  · by_cases h1 : type = 1
    · by_cases hshort : length < 0x08
      · simp only [h1, if_true, hshort]
        exact within_nothing front w d
      · have hlong : 0x08 ≤ length.toNat := by
          rw [UInt8.lt_iff_toNat_lt] at hshort
          exact Nat.le_of_not_lt hshort
        simp only [h1, if_true, if_false, hshort]
        exact decodeSystem_within hfront (hheader hlong) hlong w d
    · by_cases h2 : type = 2
      · by_cases hshort : length < 0x08
        · simp only [h2, if_true, hshort]
          exact within_nothing front w d
        · have hlong : 0x08 ≤ length.toNat := by
            rw [UInt8.lt_iff_toNat_lt] at hshort
            exact Nat.le_of_not_lt hshort
          simp only [h2, if_true, if_false, hshort]
          exact decodeBoard_within hfront (hheader hlong) hlong w d
      · simp only [h0, h1, h2, if_false]
        exact within_nothing front w d

theorem dmiDecode_within (hfront : front.length = pos + length.toNat)
    {w : List UInt8}
    (hlength : (front ++ (w ++ [0, 0]))[pos + 1]? = some length)
    (d : DmiData) :
    Within front w fun buf => dmiDecode buf pos d := by
  have hinside := (List.getElem?_eq_some_iff.mp hlength).1
  have htype : (front ++ (w ++ [0, 0]))[pos]? =
      some (front ++ (w ++ [0, 0]))[pos] :=
    List.getElem?_eq_getElem (by omega)
  rcases decodeType_within (front ++ (w ++ [0, 0]))[pos] hfront hlength d
    with ⟨d', w', hw', hdecode⟩
  refine ⟨trimFields d', w', hw', fun post => ?_⟩
  have hread : forall (i : Nat) (c : UInt8), (front ++ (w ++ [0, 0]))[i]? = some c ->
      (front ++ (w ++ [0, 0] ++ post))[i]? = some c := by
    intro i c hi
    rw [← List.append_assoc]
    exact (List.getElem?_append_left
      (List.getElem?_eq_some_iff.mp hi).1).trans hi
  simp only [dmiDecode, hread _ _ htype, hread _ _ hlength, hdecode post,
    Option.bind_eq_bind, Option.bind_some]

end Within

/-!
# Arbitrary tables
-/

/-- The search for the end of the structure at `pos` stopped at `stop`, and the
structure is decoded. -/
structure DecodedAt (buf : List UInt8) (pos stop : Nat) (length : UInt8) :
    Prop where
  header : buf[pos + 1]? = some length
  search : findNext buf buf.length (buf.length + 1) (pos + length.toNat) =
    some stop
  inside : stop + 2 ≤ buf.length

section Cut

variable {buf : List UInt8} {pos stop : Nat} {length : UInt8}

theorem DecodedAt.cut (h : DecodedAt buf pos stop length) :
    exists front w, front.length = pos + length.toNat ∧
      buf.take (stop + 2) = front ++ (w ++ [0, 0]) ∧
        buf = front ++ (w ++ [0, 0] ++ buf.drop (stop + 2)) ∧
          (front ++ (w ++ [0, 0]))[pos + 1]? = some length := by
  rcases findNext_total buf (pos + length.toNat)
    with ⟨stop', hfind, hle, hnuls⟩
  rw [h.search, Option.some.injEq] at hfind
  rw [← hfind] at hle hnuls
  rcases hnuls h.inside with ⟨hzero, hzero'⟩
  rcases cut_at_end hle hzero hzero' with ⟨front, w, hfront, htake⟩
  refine ⟨front, w, hfront, htake, ?_, ?_⟩
  · rw [← List.append_assoc, ← htake, List.take_append_drop]
  · rw [← htake, List.getElem?_take, if_pos (by omega)]
    exact h.header

/-- With the table cut behind the two NULs, the decoder does the same. -/
theorem DecodedAt.decode (h : DecodedAt buf pos stop length) (d : DmiData) :
    exists d' cut, cut.length = stop + 2 ∧
      dmiDecode (buf.take (stop + 2)) pos d = some (d', cut) ∧
        dmiDecode buf pos d = some (d', cut ++ buf.drop (stop + 2)) := by
  rcases h.cut with ⟨front, w, hfront, htake, hbuf, hheader⟩
  rcases dmiDecode_within hfront hheader d with ⟨d', w', hw', hall⟩
  refine ⟨d', front ++ (w' ++ [0, 0]), ?_, ?_, ?_⟩
  · have hlen := congrArg List.length htake
    have hin := h.inside
    simp only [List.length_take, List.length_append] at hlen ⊢
    omega
  · have hshort := hall []
    rw [List.append_nil, List.append_nil, ← htake] at hshort
    exact hshort
  · have hwhole := hall (buf.drop (stop + 2))
    rw [← hbuf, ← List.append_assoc front] at hwhole
    exact hwhole

theorem DecodedAt.string (h : DecodedAt buf pos stop length) (index : Nat) :
    exists ptr text cut, cut.length = stop + 2 ∧
      (dmiString (buf.take (stop + 2)) pos index = some (ptr, cut) ∧
        readString cut ptr = some text) ∧
      (dmiString buf pos index = some (ptr, cut ++ buf.drop (stop + 2)) ∧
        readString (cut ++ buf.drop (stop + 2)) ptr = some text) := by
  rcases h.cut with ⟨front, w, hfront, htake, hbuf, hheader⟩
  rcases dmiString_within hfront hheader index
    with ⟨ptr, text, w', hw', hall⟩
  refine ⟨ptr, text, front ++ (w' ++ [0, 0]), ?_, ?_, ?_⟩
  · have hlen := congrArg List.length htake
    have hin := h.inside
    simp only [List.length_take, List.length_append] at hlen ⊢
    omega
  · have hshort := hall []
    rw [List.append_nil, List.append_nil, ← htake] at hshort
    exact hshort
  · have hwhole := hall (buf.drop (stop + 2))
    rw [← hbuf, ← List.append_assoc front] at hwhole
    exact hwhole

end Cut

/-- One turn of the walk: the search finds an end, and the structure is decoded when
that end lies in the table. -/
theorem dmiLoop_turn {buf : List UInt8} {pos : Nat}
    (hpos : pos + 4 ≤ buf.length) :
    exists length stop,
      (stop + 2 ≤ buf.length -> DecodedAt buf pos stop length) ∧
      forall n d, dmiLoop buf.length (n + 1) pos buf d =
        if stop + 2 ≤ buf.length then
          (dmiDecode buf pos d).bind fun r =>
            dmiLoop buf.length n (stop + 2) r.2 r.1
        else dmiLoop buf.length n (stop + 2) buf d := by
  have hheader : exists length, buf[pos + 1]? = some length :=
    ⟨_, List.getElem?_eq_getElem (by omega)⟩
  rcases hheader with ⟨length, hheader⟩
  rcases findNext_total buf (pos + length.toNat) with ⟨stop, hfind, _, _⟩
  refine ⟨length, stop, fun hstop => ⟨hheader, hfind, hstop⟩, fun n d => ?_⟩
  rw [dmiLoop, if_pos hpos, hheader]
  simp only [Option.bind_eq_bind, Option.bind_some, hfind]

theorem dmiLoop_end {len pos : Nat} (hpos : ¬ pos + 4 ≤ len) (n : Nat)
    (buf : List UInt8) (d : DmiData) :
    dmiLoop len (n + 1) pos buf d = some d := by
  rw [dmiLoop, if_neg hpos]

theorem dmiLoop_total {len : Nat} (n pos : Nat) {buf : List UInt8}
    (hbuf : buf.length = len) (d : DmiData) :
    exists d', dmiLoop len n pos buf d = some d' := by
  induction n generalizing pos buf d with
  | zero => exact ⟨d, rfl⟩
  | succ n ih =>
      by_cases hpos : pos + 4 ≤ len
      · rw [← hbuf] at hpos
        rcases dmiLoop_turn hpos with ⟨length, stop, hdecoded, hturn⟩
        rw [← hbuf, hturn]
        by_cases hstop : stop + 2 ≤ buf.length
        · rcases (hdecoded hstop).decode d with ⟨d', cut, hcut, _, hdecode⟩
          have hkept : (cut ++ buf.drop (stop + 2)).length = len := by
            rw [List.length_append, List.length_drop]
            omega
          rw [if_pos hstop, hdecode, Option.bind_some, hbuf]
          exact ih (stop + 2) hkept d'
        · rw [if_neg hstop, hbuf]
          exact ih (stop + 2) hbuf d
      · exact ⟨d, dmiLoop_end hpos n buf d⟩

/-- The walk over any table ends and stays inside it, and what is done for a
structure stays in front of its end. -/
theorem dmiTable_inside (buf : List UInt8) :
    (forall num d, exists d', dmiTable (some buf) num d = some d') ∧
    forall pos stop length, DecodedAt buf pos stop length ->
      (forall d, exists d' cut, cut.length = stop + 2 ∧
        dmiDecode (buf.take (stop + 2)) pos d = some (d', cut) ∧
          dmiDecode buf pos d = some (d', cut ++ buf.drop (stop + 2))) ∧
      forall index, exists ptr text cut, cut.length = stop + 2 ∧
        (dmiString (buf.take (stop + 2)) pos index = some (ptr, cut) ∧
          readString cut ptr = some text) ∧
        (dmiString buf pos index = some (ptr, cut ++ buf.drop (stop + 2)) ∧
          readString (cut ++ buf.drop (stop + 2)) ptr = some text) := by
  constructor
  · intro num d
    exact dmiLoop_total num 0 rfl d
  · intro pos stop length h
    exact ⟨h.decode, h.string⟩

def boardTable : List UInt8 :=
  [2, 8, 0, 0, 1, 2, 9, 0, 0x41, 7, 0, 0x42, 0, 0]

theorem boardTable_inside :
    DecodedAt boardTable 0 12 8 ∧
      (exists d', dmiTable (some boardTable) 1
        (Stats.DmiData.mk [] [] [] [] [] [] [] [] [] [] []) = some d') ∧
      forall index, exists ptr text cut, cut.length = 14 ∧
        (dmiString (boardTable.take 14) 0 index = some (ptr, cut) ∧
          readString cut ptr = some text) ∧
        (dmiString boardTable 0 index = some (ptr, cut ++ boardTable.drop 14) ∧
          readString (cut ++ boardTable.drop 14) ptr = some text) := by
  have h : DecodedAt boardTable 0 12 8 :=
    ⟨by decide, by decide, by decide⟩
  exact ⟨h, (dmiTable_inside boardTable).left 1 _,
    ((dmiTable_inside boardTable).right 0 12 8 h).right⟩

end Dmi
end Breakin
