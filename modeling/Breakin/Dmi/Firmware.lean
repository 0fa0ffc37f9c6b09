import Breakin.Dmi.Cells
import Breakin.Dmi.Scan
import Breakin.Foundation.Options

/-!
# What the firmware can say

From the 64 KiB that the firmware leaves in memory, and from the tables that it points
to, to the strings that are shown, logged and written to the stats file.
-/

namespace Breakin
namespace Dmi

open Foundation
open Util
open Stats

/-- `do_dmi_decode`: `dmi_table` for one entry point after the other, each with what
`mem_chunk` returns for its table. -/
def decodeFirmware (mem : Memory) (memChunk : DmiCall -> Option (List UInt8))
    (d : DmiData) : Option DmiData := do
  let calls ← (doDmiDecode mem).value
  calls.foldlM (fun d call => dmiTable (memChunk call) call.num.toNat d) d

def Printable (text : CString) : Prop :=
  forall c, c ∈ text -> 32 ≤ c.toNat ∧ c.toNat < 127

structure Shown (text : CString) : Prop where
  fits : text.length < DMI_FIELD
  printable : Printable text

structure ShownData (d : DmiData) : Prop where
  shown : forall a : DmiArray, Shown (a.get d)
  trimmed : trimFields d = d

/-!
# One string
-/

theorem printable_byte {b : UInt8} (h : unprintable b = false) :
    32 ≤ b.toNat ∧ b.toNat < 127 := by
  have hall : forall n : Fin 256, unprintable (UInt8.ofFin n) = false ->
      32 ≤ n.val ∧ n.val < 127 := by decide +kernel
  exact hall b.toFin h

theorem printable_filter (s : List UInt8) : Printable ((s.map filterByte).map charOf) := by
  intro c hc
  rcases List.mem_map.mp hc with ⟨b, hb, rfl⟩
  rcases List.mem_map.mp hb with ⟨a, _, rfl⟩
  rw [charOf_toNat]
  exact printable_byte (unprintable_filterByte a)

theorem printable_literal {text : String} (h : text = "Not Specified" ∨ text = "<bad index>") :
    Printable text.toList := by
  have hall : forall {text : String},
      (text.toList.all fun c => decide (32 ≤ c.toNat ∧ c.toNat < 127)) = true ->
        Printable text.toList := by
    intro text hall c hc
    exact of_decide_eq_true (List.all_eq_true.mp hall c hc)
  rcases h with rfl | rfl
  · exact hall (by decide)
  · exact hall (by decide)

theorem filterLoop_some {buf buf' : List UInt8} {bp : Nat}
    (h : filterLoop bp (buf.length + 1) 0 buf = some buf') :
    exists (front s post : List UInt8), front.length = bp ∧ 0 ∉ s ∧
      buf' = front ++ (s.map filterByte ++ 0 :: post) := by
  have hlength : exists n, strlen 0 (buf.drop bp) = some n := by
    rw [filterLoop] at h
    rcases Option.bind_eq_some_iff.mp h with ⟨n, hn, _⟩
    exact ⟨n, hn⟩
  rcases hlength with ⟨n, hn⟩
  rcases exists_string (strlen_mem hn) with ⟨s, post, hs, hdrop⟩
  have hbp : bp ≤ buf.length := by
    by_contra hout
    have hnil : buf.drop bp = [] := List.drop_eq_nil_of_le (Nat.le_of_not_le hout)
    rw [hnil] at hn
    cases hn
  have hfront : (buf.take bp).length = bp := List.length_take_of_le hbp
  have hbuf : buf.take bp ++ (s ++ 0 :: post) = buf := by
    rw [← hdrop]
    exact List.take_append_drop bp buf
  have hfuel : s.length < buf.length + 1 := by
    have htotal := congrArg List.length hbuf
    simp only [List.length_append, List.length_cons] at htotal
    omega
  have hfilter := filterLoop_string (buf.take bp) post hs hfuel
  rw [hfront, hbuf, h] at hfilter
  exact ⟨buf.take bp, s, post, hfront, hs, Option.some.inj hfilter⟩

/-- Whatever is in the table, what `dmi_string` returns is printable. -/
theorem dmiString_printable {buf buf' : List UInt8} {pos s : Nat} {ptr : DmiPtr}
    {text : CString} (h : dmiString buf pos s = some (ptr, buf'))
    (hread : readString buf' ptr = some text) : Printable text := by
  cases ptr with
  | literal t =>
      cases hread
      exact printable_literal (dmiString_literal h)
  | table bp =>
      have hfiltered : filterLoop bp (buf.length + 1) 0 buf = some buf' := by
        unfold dmiString at h
        split at h
        · cases h
        · simp only [Option.bind_eq_bind, Option.bind_eq_some_iff] at h
          rcases h with ⟨length, _, bp', _, c, _, hrest⟩
          split at hrest
          · cases hrest
          · rcases Option.bind_eq_some_iff.mp hrest with ⟨filtered, hfilter, heq⟩
            cases heq
            exact hfilter
      rcases filterLoop_some hfiltered with ⟨front, s, post, rfl, hs, rfl⟩
      rw [readString_table front post (zero_notMem_filter s)] at hread
      rw [← Option.some.inj hread]
      exact printable_filter s

theorem dmiField_shown {buf buf' : List UInt8} {pos k : Nat} {text : CString}
    (h : dmiField buf pos k = some (text, buf')) : Shown text where
  fits := (dmiField_text h).left
  printable := by
    unfold dmiField at h
    simp only [Option.bind_eq_bind, Option.bind_eq_some_iff] at h
    rcases h with ⟨s, _, ⟨ptr, filtered⟩, hstring, whole, hread, heq⟩
    cases heq
    intro c hc
    exact dmiString_printable hstring hread c (List.mem_of_mem_take hc)

/-!
# One structure
-/

theorem readFields_shown {pos : Nat} {fields : List (Nat × DmiArray)}
    {buf buf' : List UInt8} {d d' : DmiData} (hd : forall a : DmiArray, Shown (a.get d))
    (h : readFields pos fields buf d = some (d', buf')) :
    forall a : DmiArray, Shown (a.get d') := by
  induction fields generalizing buf d with
  | nil =>
      cases h
      exact hd
  | cons field rest ih =>
      rcases field with ⟨k, b⟩
      rcases Option.bind_eq_some_iff.mp h with ⟨⟨text, filtered⟩, htext, hrest⟩
      refine ih ?_ hrest
      intro a
      by_cases hab : a = b
      · rw [hab, DmiArray.get_set_self]
        exact dmiField_shown htext
      · rw [DmiArray.get_set_ne hab]
        exact hd a

theorem decodeType_shown {type length : UInt8} {buf buf' : List UInt8} {pos : Nat}
    {d d' : DmiData} (hd : forall a : DmiArray, Shown (a.get d))
    (h : decodeType type length buf pos d = some (d', buf')) :
    forall a : DmiArray, Shown (a.get d') := by
  have hsame : some (d, buf) = some (d', buf') -> forall a : DmiArray, Shown (a.get d') := by
    intro heq
    cases heq
    exact hd
  unfold decodeType at h
  rw [decodeBios_eq, decodeSystem_eq, decodeBoard_eq] at h
  split_ifs at h
  · exact hsame h
  · exact readFields_shown hd h
  · exact hsame h
  · exact readFields_shown hd h
  · exact hsame h
  · exact readFields_shown hd h
  · exact hsame h

theorem Shown.trim {text : CString} (h : Shown text) : Shown (Util.trim text) where
  fits := Nat.lt_of_le_of_lt (trim_isInfix text).length_le h.fits
  printable := fun c hc => h.printable c ((trim_isInfix text).subset hc)

theorem trimFields_shown {d : DmiData} (hd : forall a : DmiArray, Shown (a.get d)) :
    forall a : DmiArray, Shown (a.get (trimFields d)) := by
  intro a
  cases a with
  | biosVersion => exact (hd .biosVersion).trim
  | boardVendor => exact (hd .boardVendor).trim
  | boardProduct => exact (hd .boardProduct).trim
  | biosVendor => exact hd .biosVendor
  | biosDate => exact hd .biosDate
  | sysVendor => exact hd .sysVendor
  | sysProduct => exact hd .sysProduct
  | sysVersion => exact hd .sysVersion
  | sysSerial => exact hd .sysSerial
  | boardVersion => exact hd .boardVersion
  | boardSerial => exact hd .boardSerial

theorem dmiDecode_shown {buf buf' : List UInt8} {pos : Nat} {d d' : DmiData}
    (hd : ShownData d) (h : dmiDecode buf pos d = some (d', buf')) : ShownData d' := by
  unfold dmiDecode at h
  simp only [Option.bind_eq_bind, Option.bind_eq_some_iff] at h
  rcases h with ⟨type, _, length, _, ⟨decoded, filtered⟩, hdecode, heq⟩
  cases heq
  constructor
  · exact trimFields_shown (decodeType_shown hd.shown hdecode)
  · unfold trimFields
    dsimp only
    rw [trim_trim, trim_trim, trim_trim]

/-!
# All tables
-/

theorem dmiLoop_shown {len n pos : Nat} {buf : List UInt8} {d d' : DmiData}
    (hd : ShownData d) (h : dmiLoop len n pos buf d = some d') : ShownData d' := by
  induction n generalizing pos buf d with
  | zero =>
      cases h
      exact hd
  | succ n ih =>
      by_cases hpos : pos + 4 ≤ len
      · rw [dmiLoop, if_pos hpos] at h
        simp only [Option.bind_eq_bind, Option.bind_eq_some_iff] at h
        rcases h with ⟨length, _, stop, _, hrest⟩
        by_cases hstop : stop + 2 ≤ len
        · rw [if_pos hstop] at hrest
          rcases Option.bind_eq_some_iff.mp hrest with ⟨⟨decoded, filtered⟩, hdecode, hnext⟩
          exact ih (dmiDecode_shown hd hdecode) hnext
        · rw [if_neg hstop] at hrest
          exact ih hd hrest
      · rw [dmiLoop, if_neg hpos] at h
        cases h
        exact hd

theorem dmiTable_shown (chunk : Option (List UInt8)) (num : Nat) {d : DmiData}
    (hd : ShownData d) :
    exists d', dmiTable chunk num d = some d' ∧ ShownData d' := by
  cases chunk with
  | none => exact ⟨d, rfl, hd⟩
  | some buf =>
      rcases dmiLoop_total num 0 rfl d with ⟨d', hloop⟩
      exact ⟨d', hloop, dmiLoop_shown hd hloop⟩

theorem shownData_zeroDmi : ShownData zeroDmi where
  shown := by
    intro a
    have hempty : Shown [] := ⟨by decide, fun c hc => absurd hc List.not_mem_nil⟩
    cases a with
    | _ => exact hempty
  trimmed := rfl

/-- Whatever the firmware has left in memory, `do_dmi_decode` comes to its end, and
every string fits its array, is printable and, where it is trimmed, has no blanks around
it.  The bytes behind the chunk, which the scan reads as well, may be any that can be
read. -/
theorem firmware_shown (image behind : Memory)
    (memChunk : DmiCall -> Option (List UInt8)) :
    exists d, decodeFirmware (memory image behind) memChunk zeroDmi = some d ∧
      (forall text, text ∈ d.strings -> Shown text) ∧ trimFields d = d := by
  rcases doDmiDecode_value image behind with ⟨calls, hcalls, _⟩
  have hstep : forall d (call : DmiCall), ShownData d ->
      exists d', dmiTable (memChunk call) call.num.toNat d = some d' ∧ ShownData d' :=
    fun d call hd => dmiTable_shown _ _ hd
  rcases foldlM_total hstep calls shownData_zeroDmi with ⟨d, hfold, hshown⟩
  refine ⟨d, ?_, ?_, hshown.trimmed⟩
  · unfold decodeFirmware
    rw [hcalls]
    exact hfold
  · intro text htext
    have hall : d.strings = [DmiArray.biosVendor, .biosVersion, .biosDate, .sysVendor,
        .sysProduct, .sysVersion, .sysSerial, .boardVendor, .boardProduct, .boardVersion,
        .boardSerial].map fun a => a.get d := rfl
    rw [hall] at htext
    rcases List.mem_map.mp htext with ⟨a, _, rfl⟩
    exact hshown.shown a

end Dmi
end Breakin
