import Mathlib.Algebra.Order.Ring.Nat
import Breakin.Foundation.Buffer
import Breakin.Foundation.CString

/-!
# The strings of a DMI structure

`dmi_string` finds string number `s` behind the formatted area of the structure at
`pos` and filters it in place.  Every access is checked against the buffer that
`mem_chunk` allocated, and every loop against the size of the buffer, so that
`none` is an access outside of it or a loop without end.
-/

namespace Breakin
namespace Dmi

open Foundation

/-- What `dmi_string` returns: a literal, or the address of a string in the
table. -/
inductive DmiPtr where
  | literal (text : String)
  | table (bp : Nat)
deriving DecidableEq

def dot : UInt8 := 0x2E

/-- `bp[i]<32 || bp[i]==127`, for the signed characters of the platform. -/
def unprintable (b : UInt8) : Bool :=
  decide (b.toInt8 < 32) || b.toInt8 == 127

def filterByte (b : UInt8) : UInt8 :=
  if unprintable b then dot else b

/-- `while(s>1 && *bp)` -/
def skipLoop (buf : List UInt8) : Nat -> Nat -> Option Nat
  | s + 2, bp => do
      let c ← buf[bp]?
      if c = 0 then some bp
      else
        let n ← strlen 0 (buf.drop bp)
        skipLoop buf (s + 1) (bp + n + 1)
  | _, bp => some bp

/-- `for(i=0; i<strlen(bp); i++)` -/
def filterLoop (bp : Nat) : Nat -> Nat -> List UInt8 -> Option (List UInt8)
  | 0, _, _ => none
  | fuel + 1, i, buf => do
      let n ← strlen 0 (buf.drop bp)
      if i < n then
        let c ← buf[bp + i]?
        if unprintable c then
          let buf' ← store buf (bp + i) dot
          filterLoop bp fuel (i + 1) buf'
        else filterLoop bp fuel (i + 1) buf
      else some buf

def dmiString (buf : List UInt8) (pos s : Nat) :
    Option (DmiPtr × List UInt8) :=
  if s = 0 then some (.literal "Not Specified", buf)
  else do
    let length ← buf[pos + 1]?
    let bp ← skipLoop buf s (pos + length.toNat)
    let c ← buf[bp]?
    if c = 0 then some (.literal "<bad index>", buf)
    else
      let buf' ← filterLoop bp (buf.length + 1) 0 buf
      some (.table bp, buf')

def charOf (b : UInt8) : Char :=
  Char.ofNat b.toNat

def readString (buf : List UInt8) : DmiPtr -> Option CString
  | .literal text => some text.toList
  | .table bp => do
      let n ← strlen 0 (buf.drop bp)
      some (((buf.drop bp).take n).map charOf)

theorem charOf_toNat (b : UInt8) : (charOf b).toNat = b.toNat := by
  have hsmall : b.toNat < 256 := b.toNat_lt
  have hvalid : b.toNat.isValidChar := Or.inl (Nat.lt_trans hsmall (by decide))
  rw [charOf, Char.ofNat, dif_pos hvalid]
  rfl

theorem charOf_injective {b c : UInt8} (h : charOf b = charOf c) : b = c := by
  have hnat := congrArg Char.toNat h
  rw [charOf_toNat, charOf_toNat] at hnat
  exact UInt8.toNat_inj.mp hnat

/-!
# Filtering
-/

theorem unprintable_filterByte (b : UInt8) :
    unprintable (filterByte b) = false := by
  unfold filterByte
  cases hb : unprintable b with
  | true => rfl
  | false => exact hb

theorem filterByte_idempotent (b : UInt8) :
    filterByte (filterByte b) = filterByte b := by
  change (if unprintable (filterByte b) then dot else filterByte b) = _
  rw [unprintable_filterByte]
  rfl

theorem filterByte_ne_zero (b : UInt8) : filterByte b ≠ 0 := by
  intro hzero
  have hprintable := unprintable_filterByte b
  rw [hzero] at hprintable
  exact absurd hprintable (by decide)

theorem zero_notMem_filter (s : List UInt8) : 0 ∉ s.map filterByte := by
  intro h
  rcases List.mem_map.mp h with ⟨b, _, hb⟩
  exact filterByte_ne_zero b hb

theorem filterLoop_from (front : List UInt8) {past todo : List UInt8}
    (post : List UInt8) {fuel : Nat} (hpast : 0 ∉ past) (htodo : 0 ∉ todo)
    (hfuel : todo.length < fuel) :
    filterLoop front.length fuel past.length
        (front ++ (past ++ todo ++ 0 :: post)) =
      some (front ++ (past ++ todo.map filterByte ++ 0 :: post)) := by
  induction todo generalizing past fuel with
  | nil =>
      cases fuel with
      | zero => cases hfuel
      | succ fuel =>
          unfold filterLoop
          rw [List.append_nil, strlen_drop hpast]
          simp
  | cons c rest ih =>
      cases fuel with
      | zero => cases hfuel
      | succ fuel =>
          rw [List.mem_cons, not_or] at htodo
          have hstring : 0 ∉ past ++ c :: rest := by
            simp [hpast, htodo.left, htodo.right]
          have hsplit : front ++ (past ++ c :: rest ++ 0 :: post) =
              (front ++ past) ++ c :: (rest ++ 0 :: post) := by simp
          have hat : (front ++ past).length = front.length + past.length :=
            List.length_append
          have hread : (front ++ (past ++ c :: rest ++ 0 :: post))[
              front.length + past.length]? = some c := by
            rw [hsplit, ← hat]
            exact read_append _ _ c
          have hnext : forall b, b ≠ 0 ->
              filterLoop front.length fuel (past.length + 1)
                  ((front ++ past) ++ b :: (rest ++ 0 :: post)) =
                some (front ++
                  (past ++ b :: rest.map filterByte ++ 0 :: post)) := by
            intro b hb
            have hpast' : 0 ∉ past ++ [b] := by
              simp [hpast, Ne.symm hb]
            have hih := ih hpast' htodo.right
              (Nat.lt_of_succ_lt_succ hfuel)
            rw [List.length_append, List.length_singleton] at hih
            simpa using hih
          unfold filterLoop
          rw [strlen_drop hstring, hread]
          simp only [Option.bind_eq_bind, Option.bind_some]
          rw [if_pos (by simp)]
          cases hc : unprintable c with
          | true =>
              have hfilter : filterByte c = dot := by
                unfold filterByte
                rw [if_pos hc]
              rw [if_pos rfl, hsplit, ← hat, store_append]
              simp only [Option.bind_some]
              rw [hnext dot (by decide), List.map_cons, hfilter]
          | false =>
              have hfilter : filterByte c = c := by
                unfold filterByte
                rw [hc]
                rfl
              rw [if_neg (by decide), hsplit,
                hnext c (Ne.symm htodo.left), List.map_cons, hfilter]

theorem filterLoop_string (front : List UInt8) {s : List UInt8}
    (post : List UInt8) {fuel : Nat} (hs : 0 ∉ s) (hfuel : s.length < fuel) :
    filterLoop front.length fuel 0 (front ++ (s ++ 0 :: post)) =
      some (front ++ (s.map filterByte ++ 0 :: post)) := by
  have hnone : (0 : UInt8) ∉ [] := by simp
  exact filterLoop_from front post hnone hs hfuel

/-!
# Skipping
-/

theorem skipLoop_one (buf : List UInt8) {s : Nat} (hs : s ≤ 1) (bp : Nat) :
    skipLoop buf s bp = some bp := by
  cases s with
  | zero => rfl
  | succ s =>
      cases s with
      | zero => rfl
      | succ s => omega

theorem skipLoop_end (front post : List UInt8) (s : Nat) :
    skipLoop (front ++ 0 :: post) s front.length = some front.length := by
  by_cases hs : s ≤ 1
  · exact skipLoop_one _ hs _
  · have hs' : s = (s - 2) + 2 := by omega
    rw [hs']
    unfold skipLoop
    rw [read_append]
    simp

theorem skipLoop_string (front : List UInt8) {c : UInt8} {t : List UInt8}
    (post : List UInt8) (hs : 0 ∉ c :: t) (s : Nat) :
    skipLoop (front ++ (c :: t ++ 0 :: post)) (s + 2) front.length =
      skipLoop (front ++ (c :: t ++ 0 :: post)) (s + 1)
        (front ++ c :: t ++ [0]).length := by
  have hc : c ≠ 0 := fun heq => hs (by simp [heq])
  conv => lhs; unfold skipLoop
  rw [strlen_drop hs, List.cons_append, read_append]
  simp only [Option.bind_eq_bind, Option.bind_some]
  rw [if_neg hc]
  congr 1
  simp
  omega

/-!
# The string that is returned
-/

theorem readString_table (front : List UInt8) {s : List UInt8}
    (post : List UInt8) (hs : 0 ∉ s) :
    readString (front ++ (s ++ 0 :: post)) (.table front.length) =
      some (s.map charOf) := by
  simp only [readString]
  rw [strlen_drop hs, List.drop_left]
  simp

theorem dmiString_string {front s post : List UInt8} {buf : List UInt8}
    {pos index : Nat} {length : UInt8} (hindex : index ≠ 0)
    (hbuf : buf = front ++ (s ++ 0 :: post)) (hs : 0 ∉ s) (hne : s ≠ [])
    (hlength : buf[pos + 1]? = some length)
    (hskip : skipLoop buf index (pos + length.toNat) = some front.length) :
    dmiString buf pos index =
      some (.table front.length,
        front ++ (s.map filterByte ++ 0 :: post)) := by
  rcases List.exists_cons_of_ne_nil hne with ⟨c, t, hcons⟩
  have hc : c ≠ 0 := fun heq => hs (by simp [hcons, heq])
  have hread : buf[front.length]? = some c := by
    rw [hbuf, hcons, List.cons_append]
    exact read_append _ _ c
  have hfilter : filterLoop front.length (buf.length + 1) 0 buf =
      some (front ++ (s.map filterByte ++ 0 :: post)) := by
    conv => lhs; arg 4; rw [hbuf]
    apply filterLoop_string front post hs
    rw [hbuf]
    simp only [List.length_append, List.length_cons]
    omega
  unfold dmiString
  rw [if_neg hindex, hlength]
  simp only [Option.bind_eq_bind, Option.bind_some]
  rw [hskip]
  simp only [Option.bind_some]
  rw [hread]
  simp only [Option.bind_some]
  rw [if_neg hc, hfilter]
  rfl

theorem dmiString_bad {front post : List UInt8} {buf : List UInt8}
    {pos index : Nat} {length : UInt8} (hindex : index ≠ 0)
    (hbuf : buf = front ++ 0 :: post) (hlength : buf[pos + 1]? = some length)
    (hskip : skipLoop buf index (pos + length.toNat) = some front.length) :
    dmiString buf pos index = some (.literal "<bad index>", buf) := by
  have hread : buf[front.length]? = some 0 := by
    rw [hbuf]
    exact read_append _ _ 0
  unfold dmiString
  rw [if_neg hindex, hlength]
  simp only [Option.bind_eq_bind, Option.bind_some]
  rw [hskip]
  simp only [Option.bind_some]
  rw [hread]
  rfl

end Dmi
end Breakin
