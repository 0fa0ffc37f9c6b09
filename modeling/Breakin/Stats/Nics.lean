import Mathlib.Data.List.Forall2
import Breakin.Foundation.Buffer
import Breakin.Foundation.Printf

/-!
# The network interfaces

`get_nic_info` asks the kernel for the list of interfaces and for two addresses of
each.  A slot is filled in steps, and counts only after the last of them, so that
what a rejected interface leaves in it is written over by the next one.
-/

namespace Breakin
namespace Stats

open Foundation

def MAX_NUM_NICS : Nat := 32

/-- The first six bytes of `ifr_hwaddr.sa_data`. -/
structure HwAddr where
  byte0 : UInt8
  byte1 : UInt8
  byte2 : UInt8
  byte3 : UInt8
  byte4 : UInt8
  byte5 : UInt8
deriving DecidableEq

def HwAddr.bytes (a : HwAddr) : List UInt8 :=
  [a.byte0, a.byte1, a.byte2, a.byte3, a.byte4, a.byte5]

structure Inet where
  byte0 : UInt8
  byte1 : UInt8
  byte2 : UInt8
  byte3 : UInt8
deriving DecidableEq

/-- `%02x` -/
def printHex2 (b : UInt8) : CString :=
  List.leftpad 2 '0' (Nat.toDigits 16 b.toNat)

/-- `"%02x:%02x:%02x:%02x:%02x:%02x"` -/
def macText (a : HwAddr) : CString :=
  List.intercalate [':'] (a.bytes.map printHex2)

/-- `"%02x%02x%02x%02x%02x%02x"` -/
def macNumText (a : HwAddr) : CString :=
  (a.bytes.map printHex2).flatten

def inetNtoa (a : Inet) : CString :=
  List.intercalate ['.']
    ([a.byte0, a.byte1, a.byte2, a.byte3].map fun b => decimal b.toNat)

/-- An interface in the answer to `SIOCGIFCONF`, and the answers to
`SIOCGIFHWADDR` and `SIOCGIFADDR` for it; `none` is -1. -/
structure Interface where
  name : CString
  hwaddr : Option HwAddr
  addr : Option Inet
deriving DecidableEq

structure NicRecord where
  name : CString
  macaddr : CString
  macaddrNum : CString
  ipaddr : CString
deriving DecidableEq

/-- The answer to `SIOCGIFCONF`: the kernel fills the buffer it is given, which
has room for `MAX_NUM_NICS` entries. -/
structure IfConf where
  entries : List Interface
  fits : entries.length ≤ MAX_NUM_NICS

def writeName (i : Interface) (hw : HwAddr) (old : NicRecord) : NicRecord :=
  { old with
    name := snprintf 16 i.name
    macaddr := macText hw
    macaddrNum := macNumText hw }

def writeAddr (addr : Inet) (old : NicRecord) : NicRecord :=
  { old with ipaddr := inetNtoa addr }

/-- The loop over the interfaces; `none` is a write behind the table. -/
def nicLoop : List Interface -> Nat -> List NicRecord ->
    Option (Nat × List NicRecord)
  | [], nics, table => some (nics, table)
  | i :: rest, nics, table =>
      match i.hwaddr with
      | none => nicLoop rest nics table
      | some hw =>
          if startsWith "lo".toList i.name then nicLoop rest nics table
          else do
            let old ← table[nics]?
            let table' ← store table nics (writeName i hw old)
            match i.addr with
            | none => nicLoop rest nics table'
            | some addr => do
                let named ← table'[nics]?
                let table'' ← store table' nics (writeAddr addr named)
                nicLoop rest (nics + 1) table''

structure NicProbe where
  hardwareFinished : Bool
  socketOpened : Bool
  ifConf : Option IfConf

/-- `nic_qty` and `nic_data` after the call. -/
def getNicInfo (probe : NicProbe) (qty : Nat) (table : List NicRecord) :
    Option (Nat × List NicRecord) :=
  if probe.hardwareFinished && probe.socketOpened then
    match probe.ifConf with
    | none => some (qty, table)
    | some conf => nicLoop conf.entries 0 table
  else some (qty, table)

def Interface.accepted (i : Interface) : Bool :=
  !startsWith "lo".toList i.name && (i.hwaddr.isSome && i.addr.isSome)

/-- A slot that holds one interface and nothing else. -/
structure OwnRecord (i : Interface) (r : NicRecord) : Prop where
  name : r.name = i.name.take 15
  macaddr : forall hw, i.hwaddr = some hw -> r.macaddr = macText hw
  macaddrNum : r.macaddrNum = r.macaddr.filter fun c => c != ':'
  ipaddr : forall addr, i.addr = some addr -> r.ipaddr = inetNtoa addr

/-!
# Texts of addresses
-/

theorem colon_notMem_printHex2 (b : UInt8) : ':' ∉ printHex2 b := by
  intro hin
  rcases List.mem_append.mp hin with hzero | hdigit
  · exact absurd (List.eq_of_mem_replicate hzero) (by decide)
  · rcases mem_toDigits (by decide) hdigit with ⟨d, hd, heq⟩
    have hall : forall d : Fin 16, ':' ≠ Nat.digitChar d := by decide
    exact hall ⟨d, hd⟩ heq

theorem macText_filter (a : HwAddr) :
    (macText a).filter (fun c => c != ':') = macNumText a := by
  have hbyte : forall b, (printHex2 b).filter (fun c => c != ':') =
      printHex2 b := by
    intro b
    apply List.filter_eq_self.mpr
    intro c hc
    rw [bne_iff_ne]
    exact fun heq => colon_notMem_printHex2 b (heq ▸ hc)
  have hcolon : [':'].filter (fun c => c != ':') = [] := rfl
  simp only [macText, macNumText, HwAddr.bytes, List.map_cons, List.map_nil,
    List.intercalate, List.intersperse, List.flatten_cons, List.flatten_nil,
    List.filter_append, hbyte, hcolon]
  rfl

theorem printHex2_digits (b : UInt8) :
    printHex2 b = [Nat.digitChar (b.toNat / 16), Nat.digitChar (b.toNat % 16)] := by
  have hbound : b.toNat < 256 := b.toNat_lt
  unfold printHex2
  rw [Nat.toDigits_eq_if (by decide)]
  split
  next hsmall =>
      rw [Nat.div_eq_of_lt hsmall, Nat.mod_eq_of_lt hsmall]
      rfl
  next hlarge =>
      rw [Nat.toDigits_eq_if (by decide), if_pos (by omega)]
      rfl

theorem printHex2_injective {b c : UInt8} (h : printHex2 b = printHex2 c) : b = c := by
  have hdigit : forall d e : Fin 16, Nat.digitChar d = Nat.digitChar e -> d = e := by
    decide
  have hbound : b.toNat < 256 := b.toNat_lt
  have hbound' : c.toNat < 256 := c.toNat_lt
  rw [printHex2_digits, printHex2_digits] at h
  rcases List.cons.inj h with ⟨hhigh, hrest⟩
  have hhigh' : b.toNat / 16 = c.toNat / 16 :=
    Fin.mk.inj (hdigit ⟨b.toNat / 16, by omega⟩ ⟨c.toNat / 16, by omega⟩ hhigh)
  have hlow' : b.toNat % 16 = c.toNat % 16 :=
    Fin.mk.inj (hdigit ⟨b.toNat % 16, by omega⟩ ⟨c.toNat % 16, by omega⟩
      (List.cons.inj hrest).left)
  exact UInt8.toNat_inj.mp (by omega)

theorem intercalate_injective {sep : Char} {words words' : List CString}
    (hwords : forall w, w ∈ words -> sep ∉ w) (hwords' : forall w, w ∈ words' -> sep ∉ w)
    (hne : words ≠ []) (hne' : words' ≠ [])
    (h : List.intercalate [sep] words = List.intercalate [sep] words') :
    words = words' := by
  rw [← List.splitOn_intercalate sep hwords hne, h,
    List.splitOn_intercalate sep hwords' hne']

/-- An address is read back from what is shown of it. -/
theorem macText_injective {a a' : HwAddr} (h : macText a = macText a') : a = a' := by
  have hcolon : forall hw : HwAddr, forall w, w ∈ hw.bytes.map printHex2 -> ':' ∉ w := by
    intro hw w hin
    rcases List.mem_map.mp hin with ⟨b, _, rfl⟩
    exact colon_notMem_printHex2 b
  have hbytes := intercalate_injective (hcolon a) (hcolon a') (List.cons_ne_nil _ _)
    (List.cons_ne_nil _ _) h
  have hsame : a.bytes = a'.bytes :=
    List.map_injective_iff.mpr (fun _ _ => printHex2_injective) hbytes
  cases a
  cases a'
  simpa [HwAddr.bytes] using hsame

theorem inetNtoa_injective {a a' : Inet} (h : inetNtoa a = inetNtoa a') : a = a' := by
  have hpoint : forall bytes : List UInt8,
      forall w, w ∈ bytes.map (fun b => decimal b.toNat) -> '.' ∉ w := by
    intro bytes w hin hpoint
    rcases List.mem_map.mp hin with ⟨b, _, rfl⟩
    exact absurd (decimal_isDigit hpoint) (by decide)
  have hbytes := intercalate_injective (hpoint _) (hpoint _) (by simp) (by simp) h
  have hdecimal : Function.Injective fun b : UInt8 => decimal b.toNat :=
    fun _ _ heq => UInt8.toNat_inj.mp (decimal_injective heq)
  have hsame := List.map_injective_iff.mpr hdecimal hbytes
  cases a
  cases a'
  simpa using hsame

/-!
# The loop over the interfaces

The slot written to is never behind the interface that is looked at, and what a
rejected interface leaves in it is written over.
-/

theorem update_slot {table : List NicRecord} {n : Nat} (h : n < table.length)
    (f : NicRecord -> NicRecord) :
    exists old, table[n]? = some old ∧
      store table n (f old) = some (table.set n (f old)) := by
  exact ⟨table[n], List.getElem?_eq_getElem h, store_of_lt h _⟩

theorem ownRecord_written {i : Interface} {hw : HwAddr} {addr : Inet}
    (hhw : i.hwaddr = some hw) (haddr : i.addr = some addr) (old : NicRecord) :
    OwnRecord i (writeAddr addr (writeName i hw old)) := by
  constructor
  · rfl
  · intro hw' h
    rw [hhw, Option.some.injEq] at h
    rw [← h]
    rfl
  · exact (macText_filter hw).symm
  · intro addr' h
    rw [haddr, Option.some.injEq] at h
    rw [← h]
    rfl

/-- What the loop has done: the slots from `nics` on belong to the accepted
interfaces. -/
def Reported (interfaces : List Interface) (nics : Nat)
    (table : List NicRecord) (result : Option (Nat × List NicRecord)) : Prop :=
  exists (records table' : List NicRecord),
    result = some (nics + records.length, table') ∧
      table'.length = table.length ∧
        table'.take (nics + records.length) = table.take nics ++ records ∧
          List.Forall₂ OwnRecord (interfaces.filter Interface.accepted) records

theorem Reported.rejected {i : Interface} {rest : List Interface} {nics : Nat}
    {table table' : List NicRecord}
    {result : Option (Nat × List NicRecord)}
    (h : Reported rest nics table' result) (hi : i.accepted = false)
    (hlength : table'.length = table.length)
    (htake : table'.take nics = table.take nics) :
    Reported (i :: rest) nics table result := by
  rcases h with ⟨records, table'', hresult, hlength', htake', hown⟩
  refine ⟨records, table'', hresult, hlength'.trans hlength, ?_, ?_⟩
  · rw [htake', htake]
  · rw [List.filter_cons_of_neg (by simp [hi])]
    exact hown

theorem Reported.accepted {i : Interface} {rest : List Interface} {nics : Nat}
    {table table' : List NicRecord} {r : NicRecord}
    {result : Option (Nat × List NicRecord)}
    (h : Reported rest (nics + 1) table' result) (hi : i.accepted = true)
    (hlength : table'.length = table.length)
    (htake : table'.take (nics + 1) = table.take nics ++ [r])
    (hr : OwnRecord i r) : Reported (i :: rest) nics table result := by
  rcases h with ⟨records, table'', hresult, hlength', htake', hown⟩
  have hcount : nics + 1 + records.length = nics + (r :: records).length := by
    rw [List.length_cons, Nat.add_assoc, Nat.add_comm 1]
  rw [hcount] at hresult htake'
  refine ⟨r :: records, table'', hresult, hlength'.trans hlength, ?_, ?_⟩
  · rw [htake', htake, List.append_assoc]
    rfl
  · rw [List.filter_cons_of_pos hi]
    exact List.Forall₂.cons hr hown

theorem nicLoop_reported {interfaces : List Interface} {nics : Nat}
    {table : List NicRecord}
    (hroom : nics + interfaces.length ≤ table.length) :
    Reported interfaces nics table (nicLoop interfaces nics table) := by
  induction interfaces generalizing nics table with
  | nil =>
      exact ⟨[], table, rfl, rfl, by simp, List.Forall₂.nil⟩
  | cons i rest ih =>
      rw [List.length_cons] at hroom
      have hskip : Reported rest nics table (nicLoop rest nics table) :=
        ih (by omega)
      unfold nicLoop
      cases hhw : i.hwaddr with
      | none =>
          exact hskip.rejected (by simp [Interface.accepted, hhw]) rfl rfl
      | some hw =>
          cases hlo : startsWith "lo".toList i.name with
          | true =>
              exact hskip.rejected (by rw [Interface.accepted, hlo]; rfl) rfl rfl
          | false =>
              have hslot : nics < table.length := by omega
              rcases update_slot hslot (writeName i hw)
                with ⟨old, hread, hstore⟩
              have hnamed : (table.set nics (writeName i hw old)).length =
                  table.length := List.length_set
              simp only [Bool.false_eq_true, if_false, hread, hstore,
                Option.bind_eq_bind, Option.bind_some]
              cases haddr : i.addr with
              | none =>
                  -- the slot is filled in part, and stays the next one
                  have hrest := @ih nics
                    (table.set nics (writeName i hw old)) (by omega)
                  exact hrest.rejected (by simp [Interface.accepted, haddr])
                    hnamed (List.take_set_of_le (Nat.le_refl _))
              | some addr =>
                  have hread' : (table.set nics (writeName i hw old))[nics]? =
                      some (writeName i hw old) :=
                    List.getElem?_set_self hslot
                  have hstore' := store_of_lt (hnamed.symm ▸ hslot)
                    (writeAddr addr (writeName i hw old))
                  rw [List.set_set] at hstore'
                  simp only [hread', hstore', Option.bind_some]
                  have hrest := @ih (nics + 1) (table.set nics
                    (writeAddr addr (writeName i hw old)))
                    (by rw [List.length_set]; omega)
                  refine hrest.accepted ?_ List.length_set ?_
                    (ownRecord_written hhw haddr old)
                  · rw [Interface.accepted, hlo, hhw, haddr]
                    rfl
                  · rw [List.take_succ_eq_append_getElem (by simpa using hslot),
                      List.take_set_of_le (Nat.le_refl _),
                      List.getElem_set_self]

theorem getNicInfo_some (probe : NicProbe) {qty : Nat} {table : List NicRecord}
    (hqty : qty ≤ MAX_NUM_NICS) (htable : table.length = MAX_NUM_NICS) :
    exists (qty' : Nat) (table' : List NicRecord),
      getNicInfo probe qty table = some (qty', table') ∧
        qty' ≤ MAX_NUM_NICS ∧ table'.length = MAX_NUM_NICS := by
  have hkept : exists (qty' : Nat) (table' : List NicRecord),
      some (qty, table) = some (qty', table') ∧
        qty' ≤ MAX_NUM_NICS ∧ table'.length = MAX_NUM_NICS :=
    ⟨qty, table, rfl, hqty, htable⟩
  unfold getNicInfo
  by_cases hready : (probe.hardwareFinished && probe.socketOpened) = true
  · rw [if_pos hready]
    cases probe.ifConf with
    | none => exact hkept
    | some conf =>
        have hfits := conf.fits
        have hroom : 0 + conf.entries.length ≤ table.length := by omega
        rcases nicLoop_reported hroom
          with ⟨records, table', hloop, hlength, _, hown⟩
        have hcount := hown.length_eq
        have hfilter := List.length_filter_le Interface.accepted conf.entries
        exact ⟨_, table', hloop, by omega, hlength.trans htable⟩
  · rw [if_neg hready]
    exact hkept

/-!
# The interfaces reported
-/

structure NicTable where
  records : List NicRecord
  size : records.length = MAX_NUM_NICS

def NicProbe.listed (probe : NicProbe) : Option IfConf :=
  if probe.hardwareFinished && probe.socketOpened then probe.ifConf else none

/-- A call that completes leaves the accepted interfaces in the table, one in each
slot in their order, and one that returns early leaves everything as it was. -/
theorem getNicInfo_own (probe : NicProbe) (qty : Nat) (t : NicTable) :
    match probe.listed with
    | none => getNicInfo probe qty t.records = some (qty, t.records)
    | some conf =>
        exists (qty' : Nat) (table' : List NicRecord),
          getNicInfo probe qty t.records = some (qty', table') ∧
            table'.length = MAX_NUM_NICS ∧
              qty' = (conf.entries.filter Interface.accepted).length ∧
                List.Forall₂ OwnRecord
                  (conf.entries.filter Interface.accepted)
                  (table'.take qty') := by
  unfold NicProbe.listed getNicInfo
  by_cases hready : (probe.hardwareFinished && probe.socketOpened) = true
  · rw [if_pos hready, if_pos hready]
    cases probe.ifConf with
    | none => rfl
    | some conf =>
        have hfits := conf.fits
        have hroom : 0 + conf.entries.length ≤ t.records.length := by
          rw [t.size, Nat.zero_add]
          exact hfits
        rcases nicLoop_reported hroom
          with ⟨records, table', hloop, hlength, htake, hown⟩
        rw [List.take_zero, List.nil_append] at htake
        refine ⟨_, table', hloop, hlength.trans t.size, ?_, ?_⟩
        · rw [Nat.zero_add, hown.length_eq]
        · rw [htake]
          exact hown
  · rw [if_neg hready, if_neg hready]

end Stats
end Breakin
