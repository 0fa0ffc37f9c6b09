import Mathlib.Data.List.Chain
import Breakin.Dmi.Table

/-!
# Decoding a well-formed table

A table is a list of structures, each encoded as its formatted area and its
strings.  The walk of `dmi_table` finds the structures again, and the decoder
leaves the strings of the last structure of each type.
-/

namespace Breakin
namespace Dmi

open Foundation
open Util
open Stats

/-- A structure: its type, the formatted area behind the type and the length, and
its strings. -/
structure DmiStructure where
  type : UInt8
  rest : List UInt8
  strings : List (List UInt8)
  size : 2 ≤ rest.length ∧ rest.length ≤ 253
  texts : forall t, t ∈ strings -> t ≠ [] ∧ (0 : UInt8) ∉ t

namespace DmiStructure

def length (s : DmiStructure) : Nat :=
  s.rest.length + 2

def formatted (s : DmiStructure) : List UInt8 :=
  s.type :: UInt8.ofNat s.length :: s.rest

end DmiStructure

def packed (strings : List (List UInt8)) : List UInt8 :=
  strings.flatMap fun t => t ++ [0]

/-- The string set ends with one more NUL, and is two NULs without strings. -/
def stringSet (strings : List (List UInt8)) : List UInt8 :=
  if strings = [] then [0, 0] else packed strings ++ [0]

def encode (s : DmiStructure) : List UInt8 :=
  s.formatted ++ stringSet s.strings

def encodeTable (structures : List DmiStructure) : List UInt8 :=
  structures.flatMap encode

/-- String number `index` of a structure, filtered. -/
def textOf (strings : List (List UInt8)) (index : Nat) : CString :=
  if index = 0 then "Not Specified".toList
  else
    match (strings.map (List.map filterByte))[index - 1]? with
    | none => "<bad index>".toList
    | some t => t.map charOf

namespace DmiStructure

/-- The string that byte `k` of the formatted area refers to, as it is stored. -/
def field (s : DmiStructure) (k : Nat) : CString :=
  snprintf DMI_FIELD (textOf s.strings (s.formatted.getD k 0).toNat)

def isBios (s : DmiStructure) : Bool :=
  s.type == 0 && decide (0x12 ≤ s.length)

def isSystem (s : DmiStructure) : Bool :=
  s.type == 1 && decide (0x08 ≤ s.length)

def isBoard (s : DmiStructure) : Bool :=
  s.type == 2 && decide (0x08 ≤ s.length)

end DmiStructure

/-- Byte `k` of the last structure of a kind, as its string. -/
def lastField (kind : DmiStructure -> Bool) (structures : List DmiStructure)
    (k : Nat) : CString :=
  match (structures.filter kind).getLast? with
  | none => []
  | some s => s.field k

def reported (structures : List DmiStructure) : DmiData where
  biosVendor := lastField DmiStructure.isBios structures 4
  biosVersion := trim (lastField DmiStructure.isBios structures 5)
  biosDate := lastField DmiStructure.isBios structures 6
  sysVendor := lastField DmiStructure.isSystem structures 4
  sysProduct := lastField DmiStructure.isSystem structures 5
  sysVersion := lastField DmiStructure.isSystem structures 6
  sysSerial := lastField DmiStructure.isSystem structures 7
  boardVendor := trim (lastField DmiStructure.isBoard structures 4)
  boardProduct := trim (lastField DmiStructure.isBoard structures 5)
  boardVersion := lastField DmiStructure.isBoard structures 6
  boardSerial := lastField DmiStructure.isBoard structures 7

def zeroDmi : DmiData where
  biosVendor := []
  biosVersion := []
  biosDate := []
  sysVendor := []
  sysProduct := []
  sysVersion := []
  sysSerial := []
  boardVendor := []
  boardProduct := []
  boardVersion := []
  boardSerial := []

/-!
# What is stored of a string
-/

/-- A printable string that the member has room for is stored as it is. -/
theorem DmiStructure.field_stored {s : DmiStructure} {k i : Nat} {t : List UInt8}
    (hindex : (s.formatted.getD k 0).toNat = i + 1) (ht : s.strings[i]? = some t)
    (hprintable : forall b, b ∈ t -> unprintable b = false) (hfits : t.length < DMI_FIELD) :
    s.field k = t.map charOf := by
  have hfilter : t.map filterByte = t := by
    have hbyte : forall b, b ∈ t -> filterByte b = id b := by
      intro b hb
      unfold filterByte
      rw [hprintable b hb]
      rfl
    rw [List.map_congr_left hbyte, List.map_id]
  unfold field textOf
  rw [hindex, if_neg (Nat.succ_ne_zero i), Nat.add_sub_cancel, List.getElem?_map, ht]
  show snprintf DMI_FIELD ((t.map filterByte).map charOf) = t.map charOf
  rw [hfilter]
  unfold snprintf
  rw [List.take_of_length_le]
  rw [List.length_map]
  exact Nat.le_sub_one_of_lt hfits

/-!
# The end of an encoded structure
-/

/-- Not both NUL. -/
def NotBothZero (a b : UInt8) : Prop :=
  a ≠ 0 ∨ b ≠ 0

theorem findNext_first (front : List UInt8) {w : List UInt8}
    (post : List UInt8) {fuel : Nat}
    (hchain : List.IsChain NotBothZero (w ++ [0])) (hfuel : w.length < fuel) :
    findNext (front ++ (w ++ [0, 0] ++ post))
        (front ++ (w ++ [0, 0] ++ post)).length fuel front.length =
      some (front ++ w).length := by
  induction w generalizing front fuel with
  | nil =>
      cases fuel with
      | zero => cases hfuel
      | succ fuel =>
          have hread : (front ++ ([] ++ [0, 0] ++ post))[front.length]? =
              some 0 := read_append front (0 :: post) 0
          have hread' : (front ++ ([] ++ [0, 0] ++ post))[front.length + 1]? =
              some 0 := by simp
          unfold findNext
          rw [if_pos (by simp), hread, hread']
          simp
  | cons c w ih =>
      cases fuel with
      | zero => cases hfuel
      | succ fuel =>
          rw [List.cons_append] at hchain
          have hnext : findNext (front ++ (c :: w ++ [0, 0] ++ post))
              (front ++ (c :: w ++ [0, 0] ++ post)).length fuel
                (front.length + 1) = some (front ++ c :: w).length := by
            have hfound := ih (front ++ [c]) hchain.tail
              (Nat.lt_of_succ_lt_succ hfuel)
            simpa using hfound
          -- the byte behind c, which is not NUL when c is
          have hbehind : exists b more, w ++ [0, 0] ++ post = b :: more ∧
              NotBothZero c b := by
            cases w with
            | nil => exact ⟨0, 0 :: post, rfl, (List.isChain_cons_cons.mp hchain).1⟩
            | cons b w => exact ⟨b, _, rfl, (List.isChain_cons_cons.mp hchain).1⟩
          rcases hbehind with ⟨b, more, hmore, hpair⟩
          have hbuf : front ++ (c :: w ++ [0, 0] ++ post) =
              front ++ c :: b :: more := by
            rw [← hmore]
            simp
          rw [hbuf] at hnext ⊢
          have hread : (front ++ c :: b :: more)[front.length]? = some c :=
            read_append front (b :: more) c
          have hread' : (front ++ c :: b :: more)[front.length + 1]? =
              some b := by simp
          unfold findNext
          rw [if_pos (by simp), hread, hread']
          simp only [Option.bind_eq_bind, Option.bind_some]
          by_cases hc : c = 0
          · have hb : b ≠ 0 := hpair.resolve_left (fun h => h hc)
            rw [if_neg (fun h => h hc), if_pos hb]
            exact hnext
          · rw [if_pos hc]
            exact hnext

def Valid (strings : List (List UInt8)) : Prop :=
  forall t, t ∈ strings -> t ≠ [] ∧ (0 : UInt8) ∉ t

theorem packed_cons (t : List UInt8) (rest : List (List UInt8)) :
    packed (t :: rest) = t ++ 0 :: packed rest := by
  simp [packed]

theorem packed_append (left right : List (List UInt8)) :
    packed (left ++ right) = packed left ++ packed right :=
  List.flatMap_append

theorem isChain_of_zero_notMem {t : List UInt8} (h : (0 : UInt8) ∉ t) :
    List.IsChain NotBothZero t := by
  induction t with
  | nil => exact List.isChain_nil
  | cons c rest ih =>
      rw [List.mem_cons, not_or] at h
      rw [List.isChain_cons]
      exact ⟨fun b _ => Or.inl (Ne.symm h.left), ih h.right⟩

theorem packed_chain {strings : List (List UInt8)} (h : Valid strings) :
    List.IsChain NotBothZero (packed strings) ∧
      forall b, b ∈ (packed strings).head? -> b ≠ 0 := by
  induction strings with
  | nil => exact ⟨List.isChain_nil, fun b hb => by cases hb⟩
  | cons t rest ih =>
      rcases h t (by simp) with ⟨hne, hzero⟩
      have hrest : Valid rest :=
        fun t' ht' => h t' (List.mem_cons_of_mem t ht')
      rcases List.exists_cons_of_ne_nil hne with ⟨c, more, hcons⟩
      have hc : c ≠ 0 := fun heq => hzero (by simp [hcons, heq])
      rcases ih hrest with ⟨hchain, hhead⟩
      rw [packed_cons]
      constructor
      · rw [List.isChain_append]
        refine ⟨isChain_of_zero_notMem hzero, ?_, ?_⟩
        · rw [List.isChain_cons]
          exact ⟨fun b hb => Or.inr (hhead b hb), hchain⟩
        · intro a ha b _
          left
          intro heq
          exact hzero (heq ▸ List.mem_of_mem_getLast? ha)
      · intro b hb
        rw [hcons, List.cons_append, List.head?_cons, Option.mem_some_iff] at hb
        rw [← hb]
        exact hc

theorem stringSet_end {strings : List (List UInt8)} (h : Valid strings) :
    exists w, stringSet strings = w ++ [0, 0] ∧
      List.IsChain NotBothZero (w ++ [0]) := by
  rcases List.eq_nil_or_concat strings with hnil | ⟨front, t, hlast⟩
  · exists []
    refine ⟨?_, List.isChain_singleton 0⟩
    unfold stringSet
    rw [if_pos hnil]
    rfl
  · rw [List.concat_eq_append] at hlast
    have hpacked : packed strings = packed front ++ t ++ [0] := by
      rw [hlast, packed_append, packed_cons, List.append_assoc]
      rfl
    exists packed front ++ t
    constructor
    · unfold stringSet
      rw [if_neg (by simp [hlast]), hpacked]
      simp
    · rw [← hpacked]
      exact (packed_chain h).left

theorem stringSet_packed (strings : List (List UInt8)) :
    exists extra, stringSet strings = packed strings ++ 0 :: extra := by
  unfold stringSet
  by_cases hnil : strings = []
  · exists [0]
    rw [if_pos hnil, hnil]
    rfl
  · exists []
    rw [if_neg hnil]

/-!
# The strings of an encoded structure
-/

/-- The skip loop counts strings, and stops behind the last one. -/
theorem skipLoop_packed (front : List UInt8) {strings : List (List UInt8)}
    (post : List UInt8) (h : Valid strings) (i : Nat) :
    skipLoop (front ++ (packed strings ++ 0 :: post)) (i + 1) front.length =
      some (front ++ packed (strings.take i)).length := by
  induction strings generalizing front i with
  | nil =>
      rw [List.take_nil]
      change skipLoop (front ++ 0 :: post) (i + 1) front.length = _
      rw [skipLoop_end]
      simp [packed]
  | cons t rest ih =>
      cases i with
      | zero =>
          rw [skipLoop_one _ (Nat.le_refl 1)]
          simp [packed]
      | succ i =>
          rcases h t (by simp) with ⟨hne, hzero⟩
          have hrest : Valid rest :=
            fun t' ht' => h t' (List.mem_cons_of_mem t ht')
          rcases List.exists_cons_of_ne_nil hne with ⟨c, more, hcons⟩
          have hstep := skipLoop_string front (packed rest ++ 0 :: post)
            (hcons ▸ hzero) i
          rw [← hcons] at hstep
          have hnext := ih (front ++ t ++ [0]) hrest i
          have hbuf : front ++ (packed (t :: rest) ++ 0 :: post) =
              front ++ (t ++ 0 :: (packed rest ++ 0 :: post)) := by
            rw [packed_cons]
            simp
          have hbuf' : front ++ t ++ [0] ++ (packed rest ++ 0 :: post) =
              front ++ (t ++ 0 :: (packed rest ++ 0 :: post)) := by simp
          rw [hbuf'] at hnext
          rw [hbuf, hstep, hnext, List.take_succ_cons, packed_cons]
          simp

def Filtered (strings strings' : List (List UInt8)) : Prop :=
  strings'.map (List.map filterByte) = strings.map (List.map filterByte)

theorem Filtered.textOf {strings strings' : List (List UInt8)}
    (h : Filtered strings strings') (index : Nat) :
    textOf strings' index = Dmi.textOf strings index := by
  unfold Dmi.textOf
  rw [h]

theorem packed_length (strings : List (List UInt8)) :
    (packed strings).length =
      (((strings.map (List.map filterByte)).map List.length).map (· + 1)).sum := by
  induction strings with
  | nil => rfl
  | cons t rest ih =>
      rw [packed_cons, List.length_append, List.length_cons, ih]
      simp
      omega

theorem Filtered.packed_length {strings strings' : List (List UInt8)}
    (h : Filtered strings strings') :
    (packed strings').length = (packed strings).length := by
  rw [Dmi.packed_length, Dmi.packed_length, h]

theorem filtered_map (t : List UInt8) :
    (t.map filterByte).map filterByte = t.map filterByte := by
  rw [List.map_map]
  apply List.map_congr_left
  intro b _
  exact filterByte_idempotent b

theorem filtered_set (left : List (List UInt8)) (t : List UInt8)
    (right : List (List UInt8)) :
    Filtered (left ++ t :: right) (left ++ t.map filterByte :: right) := by
  unfold Filtered
  rw [List.map_append, List.map_append, List.map_cons, List.map_cons,
    filtered_map]

theorem Valid.set {strings : List (List UInt8)} {left right : List (List UInt8)}
    {t : List UInt8} (h : Valid strings) (hsplit : strings = left ++ t :: right) :
    Valid (left ++ t.map filterByte :: right) := by
  intro t' ht'
  rcases List.mem_append.mp ht' with hleft | hrest
  · exact h t' (by rw [hsplit]; exact List.mem_append_left _ hleft)
  · rcases List.mem_cons.mp hrest with heq | hright
    · rw [heq]
      refine ⟨?_, zero_notMem_filter t⟩
      intro hnil
      exact (h t (by simp [hsplit])).left (List.map_eq_nil_iff.mp hnil)
    · exact h t' (by rw [hsplit]; simp [hright])

/-- `dmi_string` on the strings of a structure, with what is read of them. -/
theorem dmiString_packed {front : List UInt8} {strings : List (List UInt8)}
    (post : List UInt8) {pos : Nat} {length : UInt8} (h : Valid strings)
    (hfront : front.length = pos + length.toNat)
    (hlength : (front ++ (packed strings ++ 0 :: post))[pos + 1]? = some length)
    (index : Nat) :
    exists ptr strings', Valid strings' ∧ Filtered strings strings' ∧
      dmiString (front ++ (packed strings ++ 0 :: post)) pos index =
          some (ptr, front ++ (packed strings' ++ 0 :: post)) ∧
        readString (front ++ (packed strings' ++ 0 :: post)) ptr =
          some (textOf strings index) := by
  cases index with
  | zero =>
      exact ⟨.literal "Not Specified", strings, h, rfl, rfl, rfl⟩
  | succ i =>
      have hskip := skipLoop_packed front post h i
      rw [hfront] at hskip
      by_cases hi : i < strings.length
      · -- the string is there, and is filtered in its place
        have hsplit : strings =
            strings.take i ++ strings[i] :: strings.drop (i + 1) := by
          rw [List.getElem_cons_drop, List.take_append_drop]
        have hbuf : front ++ (packed strings ++ 0 :: post) =
            front ++ packed (strings.take i) ++ (strings[i] ++
              0 :: (packed (strings.drop (i + 1)) ++ 0 :: post)) := by
          conv => lhs; rw [hsplit, packed_append, packed_cons]
          simp
        rcases h strings[i] (List.getElem_mem hi) with ⟨hne, hzero⟩
        have hcall := dmiString_string (Nat.succ_ne_zero i) hbuf hzero hne
          hlength hskip
        have htext : textOf strings (i + 1) =
            (strings[i].map filterByte).map charOf := by
          unfold textOf
          rw [if_neg (Nat.succ_ne_zero i), Nat.add_sub_cancel,
            List.getElem?_map, List.getElem?_eq_getElem hi]
          rfl
        have hbuf' : front ++ (packed (strings.take i ++
            strings[i].map filterByte :: strings.drop (i + 1)) ++ 0 :: post) =
            front ++ packed (strings.take i) ++ (strings[i].map filterByte ++
              0 :: (packed (strings.drop (i + 1)) ++ 0 :: post)) := by
          rw [packed_append, packed_cons]
          simp
        refine ⟨.table (front ++ packed (strings.take i)).length, _,
          h.set hsplit, ?_, ?_, ?_⟩
        · have hset := filtered_set (strings.take i) strings[i]
            (strings.drop (i + 1))
          rw [← hsplit] at hset
          exact hset
        · rw [hbuf']
          exact hcall
        · rw [hbuf', htext]
          exact readString_table _ _ (zero_notMem_filter _)
      · have htake : strings.take i = strings :=
          List.take_of_length_le (by omega)
        rw [htake] at hskip
        have hbuf : front ++ (packed strings ++ 0 :: post) =
            front ++ packed strings ++ 0 :: post := by simp
        refine ⟨.literal "<bad index>", strings, h, rfl,
          dmiString_bad (Nat.succ_ne_zero i) hbuf hlength hskip, ?_⟩
        unfold textOf
        rw [if_neg (Nat.succ_ne_zero i), Nat.add_sub_cancel,
          List.getElem?_eq_none (by simp; omega)]
        rfl

/-!
# Decoding an encoded structure
-/

namespace DmiStructure

theorem formatted_length (s : DmiStructure) : s.formatted.length = s.length :=
  rfl

theorem length_toNat (s : DmiStructure) :
    (UInt8.ofNat s.length).toNat = s.length := by
  have hsize := s.size.right
  unfold length
  rw [UInt8.toNat_ofNat']
  omega

end DmiStructure

section Encoded

variable (pre post : List UInt8) (s : DmiStructure)

def tableAt (strings : List (List UInt8)) : List UInt8 :=
  pre ++ s.formatted ++ (packed strings ++ 0 :: post)

theorem tableAt_read (strings : List (List UInt8)) {k : Nat}
    (hk : k < s.length) :
    (tableAt pre post s strings)[pre.length + k]? =
      some (s.formatted.getD k 0) := by
  have hin : k < s.formatted.length := hk
  unfold tableAt
  rw [List.append_assoc, List.getElem?_append_right (by omega),
    Nat.add_sub_cancel_left, List.getElem?_append_left hin,
    List.getD_eq_getElem?_getD, List.getElem?_eq_getElem hin]
  rfl

theorem dmiField_encoded {strings : List (List UInt8)} (h : Valid strings)
    (hfiltered : Filtered s.strings strings) {k : Nat} (hk : k < s.length) :
    exists strings', Valid strings' ∧ Filtered s.strings strings' ∧
      dmiField (tableAt pre post s strings) pre.length k =
        some (s.field k, tableAt pre post s strings') := by
  have hlong : 4 ≤ s.length := by
    have hsize := s.size.left
    unfold DmiStructure.length
    omega
  have hlength : (tableAt pre post s strings)[pre.length + 1]? =
      some (UInt8.ofNat s.length) :=
    tableAt_read pre post s strings (by omega)
  have hfront : (pre ++ s.formatted).length =
      pre.length + (UInt8.ofNat s.length).toNat := by
    rw [s.length_toNat, List.length_append, s.formatted_length]
  rcases dmiString_packed post h hfront hlength (s.formatted.getD k 0).toNat
    with ⟨ptr, strings', hvalid, hfiltered', hstring, htext⟩
  refine ⟨strings', hvalid, hfiltered'.trans hfiltered, ?_⟩
  rw [hfiltered.textOf] at htext
  have hstring' : dmiString (tableAt pre post s strings) pre.length
      (s.formatted.getD k 0).toNat =
        some (ptr, tableAt pre post s strings') := hstring
  have htext' : readString (tableAt pre post s strings') ptr =
      some (textOf s.strings (s.formatted.getD k 0).toNat) := htext
  simp only [dmiField, tableAt_read pre post s strings hk, hstring', htext',
    Option.bind_eq_bind, Option.bind_some]
  rfl

theorem decodeBios_encoded (hlong : 7 ≤ s.length) (d : DmiData) :
    exists strings, Valid strings ∧ Filtered s.strings strings ∧
      decodeBios (tableAt pre post s s.strings) pre.length d =
        some
          ({ d with
              biosVendor := s.field 4
              biosVersion := s.field 5
              biosDate := s.field 6 },
            tableAt pre post s strings) := by
  rcases dmiField_encoded pre post s s.texts rfl (k := 4) (by omega)
    with ⟨t4, hvalid4, hfiltered4, h4⟩
  rcases dmiField_encoded pre post s hvalid4 hfiltered4 (k := 5) (by omega)
    with ⟨t5, hvalid5, hfiltered5, h5⟩
  rcases dmiField_encoded pre post s hvalid5 hfiltered5 (k := 6) (by omega)
    with ⟨t6, hvalid6, hfiltered6, h6⟩
  refine ⟨t6, hvalid6, hfiltered6, ?_⟩
  simp only [decodeBios, h4, h5, h6, Option.bind_eq_bind, Option.bind_some]

theorem fourFields_encoded (hlong : 8 ≤ s.length) :
    exists strings, Valid strings ∧ Filtered s.strings strings ∧
      fourFields (tableAt pre post s s.strings) pre.length =
        some ((s.field 4, s.field 5, s.field 6, s.field 7),
          tableAt pre post s strings) := by
  rcases dmiField_encoded pre post s s.texts rfl (k := 4) (by omega)
    with ⟨t4, hvalid4, hfiltered4, h4⟩
  rcases dmiField_encoded pre post s hvalid4 hfiltered4 (k := 5) (by omega)
    with ⟨t5, hvalid5, hfiltered5, h5⟩
  rcases dmiField_encoded pre post s hvalid5 hfiltered5 (k := 6) (by omega)
    with ⟨t6, hvalid6, hfiltered6, h6⟩
  rcases dmiField_encoded pre post s hvalid6 hfiltered6 (k := 7) (by omega)
    with ⟨t7, hvalid7, hfiltered7, h7⟩
  refine ⟨t7, hvalid7, hfiltered7, ?_⟩
  simp only [fourFields, h4, h5, h6, h7, Option.bind_eq_bind,
    Option.bind_some]

def fieldsOf (d : DmiData) : DmiData :=
  if s.isBios then
    { d with
      biosVendor := s.field 4
      biosVersion := s.field 5
      biosDate := s.field 6 }
  else if s.isSystem then
    { d with
      sysVendor := s.field 4
      sysProduct := s.field 5
      sysVersion := s.field 6
      sysSerial := s.field 7 }
  else if s.isBoard then
    { d with
      boardVendor := s.field 4
      boardProduct := s.field 5
      boardVersion := s.field 6
      boardSerial := s.field 7 }
  else d

theorem short_iff (n : UInt8) :
    UInt8.ofNat s.length < n <-> ¬ n.toNat ≤ s.length := by
  rw [UInt8.lt_iff_toNat_lt, s.length_toNat]
  exact Nat.not_le.symm

theorem decodeType_encoded (d : DmiData) :
    exists strings, Valid strings ∧ Filtered s.strings strings ∧
      decodeType s.type (UInt8.ofNat s.length)
          (tableAt pre post s s.strings) pre.length d =
        some (fieldsOf s d, tableAt pre post s strings) := by
  have hbios : s.isBios = (s.type == 0 && decide (0x12 ≤ s.length)) := rfl
  have hsystem : s.isSystem = (s.type == 1 && decide (0x08 ≤ s.length)) := rfl
  have hboard : s.isBoard = (s.type == 2 && decide (0x08 ≤ s.length)) := rfl
  have hkept : exists strings, Valid strings ∧ Filtered s.strings strings ∧
      some (d, tableAt pre post s s.strings) =
        some (d, tableAt pre post s strings) :=
    ⟨s.strings, s.texts, rfl, rfl⟩
  unfold decodeType fieldsOf
  rw [hbios, hsystem, hboard]
  by_cases h0 : s.type = 0
  · rw [if_pos h0, h0]
    by_cases hlong : 0x12 ≤ s.length
    · rw [if_neg (fun hlt => (short_iff s 0x12).mp hlt hlong)]
      simp only [hlong, beq_self_eq_true, decide_true, Bool.and_true, if_true]
      exact decodeBios_encoded pre post s (by omega) d
    · rw [if_pos ((short_iff s 0x12).mpr hlong)]
      simp only [hlong]
      exact hkept
  · by_cases h1 : s.type = 1
    · rw [if_neg h0, if_pos h1, h1]
      by_cases hlong : 0x08 ≤ s.length
      · rw [if_neg (fun hlt => (short_iff s 0x08).mp hlt hlong)]
        rcases fourFields_encoded pre post s hlong
          with ⟨strings, hvalid, hfiltered, hfour⟩
        refine ⟨strings, hvalid, hfiltered, ?_⟩
        simp only [decodeSystem, hfour, Option.bind_eq_bind, Option.bind_some]
        simp [hlong]
      · rw [if_pos ((short_iff s 0x08).mpr hlong)]
        simp only [hlong]
        exact hkept
    · by_cases h2 : s.type = 2
      · rw [if_neg h0, if_neg h1, if_pos h2, h2]
        by_cases hlong : 0x08 ≤ s.length
        · rw [if_neg (fun hlt => (short_iff s 0x08).mp hlt hlong)]
          rcases fourFields_encoded pre post s hlong
            with ⟨strings, hvalid, hfiltered, hfour⟩
          refine ⟨strings, hvalid, hfiltered, ?_⟩
          simp only [decodeBoard, hfour, Option.bind_eq_bind, Option.bind_some]
          simp [hlong]
        · rw [if_pos ((short_iff s 0x08).mpr hlong)]
          simp only [hlong]
          exact hkept
      · rw [if_neg h0, if_neg h1, if_neg h2]
        rw [beq_eq_false_iff_ne.mpr h0, beq_eq_false_iff_ne.mpr h1,
          beq_eq_false_iff_ne.mpr h2]
        exact hkept

theorem dmiDecode_encoded (d : DmiData) :
    exists strings, Valid strings ∧ Filtered s.strings strings ∧
      dmiDecode (tableAt pre post s s.strings) pre.length d =
        some (trimFields (fieldsOf s d), tableAt pre post s strings) := by
  have hsize := s.size.left
  have htype : (tableAt pre post s s.strings)[pre.length]? = some s.type :=
    tableAt_read pre post s s.strings (k := 0)
      (by unfold DmiStructure.length; omega)
  have hlength : (tableAt pre post s s.strings)[pre.length + 1]? =
      some (UInt8.ofNat s.length) :=
    tableAt_read pre post s s.strings (by unfold DmiStructure.length; omega)
  rcases decodeType_encoded pre post s d
    with ⟨strings, hvalid, hfiltered, hdecode⟩
  refine ⟨strings, hvalid, hfiltered, ?_⟩
  simp only [dmiDecode, htype, hlength, hdecode, Option.bind_eq_bind,
    Option.bind_some]

end Encoded

/-!
# The walk over an encoded table
-/

/-- From the front of a structure on, every structure is decoded in turn. -/
theorem dmiLoop_encoded {len : Nat} (pre : List UInt8)
    (structures : List DmiStructure)
    (hlen : len = (pre ++ encodeTable structures).length) (d : DmiData) :
    dmiLoop len structures.length pre.length (pre ++ encodeTable structures) d =
      some (structures.foldl (fun d s => trimFields (fieldsOf s d)) d) := by
  induction structures generalizing pre d with
  | nil => rfl
  | cons s rest ih =>
      rcases stringSet_packed s.strings with ⟨extra, hset⟩
      rcases stringSet_end s.texts with ⟨w, hw, hchain⟩
      have hbuf : pre ++ encodeTable (s :: rest) =
          tableAt pre (extra ++ encodeTable rest) s s.strings := by
        unfold tableAt
        rw [encodeTable, List.flatMap_cons, encode, hset]
        simp [encodeTable]
      have hbuf' : tableAt pre (extra ++ encodeTable rest) s s.strings =
          (pre ++ s.formatted) ++ (w ++ [0, 0] ++ encodeTable rest) := by
        rw [← hw, hset]
        simp [tableAt]
      have hfront : (pre ++ s.formatted).length =
          pre.length + (UInt8.ofNat s.length).toNat := by
        rw [s.length_toNat, List.length_append, s.formatted_length]
      have hlen' : len = (pre ++ s.formatted).length + w.length + 2 +
          (encodeTable rest).length := by
        rw [hlen, hbuf, hbuf']
        simp only [List.length_append, List.length_cons, List.length_nil]
        omega
      have hsize := s.size.left
      have hlength : (tableAt pre (extra ++ encodeTable rest) s s.strings)[
          pre.length + 1]? = some (UInt8.ofNat s.length) :=
        tableAt_read _ _ s _ (by unfold DmiStructure.length; omega)
      have hfind : findNext
          (tableAt pre (extra ++ encodeTable rest) s s.strings) len (len + 1)
            (pre.length + (UInt8.ofNat s.length).toNat) =
          some ((pre ++ s.formatted) ++ w).length := by
        rw [hlen, hbuf, ← hfront, hbuf']
        apply findNext_first _ _ hchain
        simp only [List.length_append, List.length_cons, List.length_nil]
        omega
      rcases dmiDecode_encoded pre (extra ++ encodeTable rest) s d
        with ⟨strings, hvalid, hfiltered, hdecode⟩
      -- the walked part, with its strings filtered
      have hnext : tableAt pre (extra ++ encodeTable rest) s strings =
          (pre ++ s.formatted ++ (packed strings ++ 0 :: extra)) ++
            encodeTable rest := by
        simp [tableAt]
      have hwalked :
          (pre ++ s.formatted ++ (packed strings ++ 0 :: extra)).length =
            ((pre ++ s.formatted) ++ w).length + 2 := by
        have hends := congrArg List.length (hset.symm.trans hw)
        have hpacked := hfiltered.packed_length
        simp only [List.length_append, List.length_cons, List.length_nil]
          at hends ⊢
        omega
      rw [hbuf, List.length_cons, List.foldl_cons]
      unfold dmiLoop
      have hfour : pre.length + 4 ≤ len := by
        rw [hlen', List.length_append, s.formatted_length, DmiStructure.length]
        omega
      rw [if_pos hfour, hlength]
      simp only [Option.bind_eq_bind, Option.bind_some]
      rw [hfind]
      simp only [Option.bind_some]
      have hin : ((pre ++ s.formatted) ++ w).length + 2 ≤ len := by
        rw [hlen', List.length_append]
        omega
      rw [if_pos hin, hdecode]
      simp only [Option.bind_some]
      rw [hnext, ← hwalked]
      apply ih
      rw [List.length_append, hwalked, hlen']
      simp only [List.length_append]

/-!
# The last structure of each type
-/

theorem lastField_snoc (kind : DmiStructure -> Bool)
    (structures : List DmiStructure) (s : DmiStructure) (k : Nat) :
    lastField kind (structures ++ [s]) k =
      if kind s then s.field k else lastField kind structures k := by
  unfold lastField
  rw [List.filter_append]
  cases hkind : kind s with
  | true => simp [hkind]
  | false => simp [hkind]

theorem kinds_exclusive (s : DmiStructure) :
    (s.isBios = true -> s.isSystem = false ∧ s.isBoard = false) ∧
      (s.isSystem = true -> s.isBoard = false) := by
  unfold DmiStructure.isBios DmiStructure.isSystem DmiStructure.isBoard
  constructor
  · intro h
    rw [Bool.and_eq_true, beq_iff_eq] at h
    rw [h.left]
    exact ⟨rfl, rfl⟩
  · intro h
    rw [Bool.and_eq_true, beq_iff_eq] at h
    rw [h.left]
    rfl

theorem reported_snoc (structures : List DmiStructure) (s : DmiStructure) :
    reported (structures ++ [s]) =
      trimFields (fieldsOf s (reported structures)) := by
  rcases kinds_exclusive s with ⟨hbios, hsystem⟩
  unfold reported fieldsOf
  simp only [lastField_snoc]
  cases h0 : s.isBios with
  | true =>
      rcases hbios h0 with ⟨h1, h2⟩
      simp [trimFields, h1, h2, trim_trim]
  | false =>
      cases h1 : s.isSystem with
      | true => simp [trimFields, hsystem h1, trim_trim]
      | false =>
          cases h2 : s.isBoard with
          | true => simp [trimFields, trim_trim]
          | false => simp [trimFields, trim_trim]

theorem foldl_reported (structures : List DmiStructure) :
    structures.foldl (fun d s => trimFields (fieldsOf s d)) zeroDmi =
      reported structures := by
  induction structures using List.reverseRecOn with
  | nil => rfl
  | append_singleton structures s ih =>
      rw [List.foldl_append, ih, reported_snoc]
      rfl

/-- Reading a well-formed table leaves what it says in `dmi_data`. -/
theorem dmiTable_decodes (structures : List DmiStructure) :
    dmiTable (some (encodeTable structures)) structures.length zeroDmi =
      some (reported structures) := by
  rw [← foldl_reported]
  exact dmiLoop_encoded [] structures rfl zeroDmi

end Dmi
end Breakin
