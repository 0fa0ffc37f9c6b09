import Breakin.Foundation.Strtok
import Breakin.Scheduler.State

/-!
# Finding the burn-in tests

`find_burnin_tests` scans the disable list once for every directory entry, and
each scan edits the list.  From the second entry on only its first name is left.
-/

namespace Breakin
namespace Scheduler

open Foundation

def MAX_BURNIN_SCRIPTS : Nat := 64

def DISABLE_SIZE : Nat := 1024

/-- `breakin_disable` after option `t`. -/
def disableBuffer (optarg : CString) : List Char :=
  let text := snprintf DISABLE_SIZE optarg
  text ++ List.replicate (DISABLE_SIZE - text.length) NUL

def scanDisable (buf : List Char) (entry : CString) : Bool × List Char :=
  scan ',' entry (buf.length + 1) buf 0

/-- What is stored for a kept entry.  The arguments of `memset` are in the wrong
order, so that `last_msg` stays as it was. -/
def fillSlot (old : BurninScript) (entry : CString) : BurninScript :=
  { old with
    name := entry
    path := snprintf BUFSIZ (BURNIN_SCRIPT_PATH ++ '/' :: entry)
    passCount := 0
    failCount := 0
    running := 0
    lastResult := 0 }

def findLoop : List Char -> List BurninScript -> List BurninScript ->
    List CString -> Option (List BurninScript)
  | _, filled, _, [] => some filled
  | buf, filled, free, entry :: rest =>
      let r := scanDisable buf entry
      if r.1 then
        findLoop r.2 filled free rest
      else if entry.head? = some '.' then
        findLoop r.2 filled free rest
      else
        match free with
        | [] => none
        | old :: free' => findLoop r.2 (filled ++ [fillSlot old entry]) free' rest

/-- The slots `burnin_scripts[0..burnin_script_count)` after the call; `none` for
the listing is a directory that cannot be opened. -/
def findBurninTests (disable : CString) (table : List BurninScript)
    (listing : Option (List CString)) : Option (List BurninScript) :=
  match listing with
  | none => some []
  | some entries => findLoop (disableBuffer disable) [] table entries

def emptyTable : List BurninScript :=
  List.replicate MAX_BURNIN_SCRIPTS BurninScript.zero

theorem fillSlot_zero (entry : CString) :
    fillSlot BurninScript.zero entry = BurninScript.found entry := rfl

/-!
# Filling the table
-/

/-- The slots after the entries `names` are stored in the slots `free`. -/
def place (filled free : List BurninScript) (names : List CString) :
    Option (List BurninScript) :=
  if names.length ≤ free.length then
    some (filled ++ List.zipWith fillSlot free names)
  else
    none

@[simp] theorem place_nil (filled free : List BurninScript) :
    place filled free [] = some filled := by
  simp [place]

@[simp] theorem place_full (filled : List BurninScript) (entry : CString)
    (rest : List CString) : place filled [] (entry :: rest) = none := by
  simp [place]

@[simp] theorem place_cons (filled : List BurninScript) (old : BurninScript)
    (free : List BurninScript) (entry : CString) (rest : List CString) :
    place filled (old :: free) (entry :: rest) =
      place (filled ++ [fillSlot old entry]) free rest := by
  simp [place]

def FilledWith (filled : List BurninScript) (names : List CString) : Prop :=
  filled.map BurninScript.name = names ∧
    forall script, script ∈ filled -> script.passCount = 0 ∧
      script.failCount = 0 ∧ script.running = 0

theorem filledWith_zip {free : List BurninScript} {names : List CString}
    (h : names.length ≤ free.length) :
    FilledWith (List.zipWith fillSlot free names) names := by
  induction names generalizing free with
  | nil => simp [FilledWith]
  | cons entry rest ih =>
      cases free with
      | nil => simp at h
      | cons old free' =>
          rcases ih (Nat.le_of_succ_le_succ h) with ⟨hnames, hslots⟩
          constructor
          · simp [fillSlot, hnames]
          · intro script hscript
            rcases List.mem_cons.mp hscript with heq | hmem
            · rw [heq]
              exact ⟨rfl, rfl, rfl⟩
            · exact hslots script hmem

theorem zipWith_emptyTable {n : Nat} {names : List CString}
    (h : names.length ≤ n) :
    List.zipWith fillSlot (List.replicate n BurninScript.zero) names =
      names.map BurninScript.found := by
  induction names generalizing n with
  | nil => simp
  | cons entry rest ih =>
      cases n with
      | zero => simp at h
      | succ n =>
          simp only [List.replicate_succ, List.zipWith_cons_cons, List.map_cons,
            fillSlot_zero, ih (Nat.le_of_succ_le_succ h)]

/-!
# Which entries are kept
-/

def keptBy (names : List CString) (entry : CString) : Bool :=
  decide (entry.head? ≠ some '.') && decide (entry ∉ names)

/-- What the program keeps: after the first entry it looks for the first name
only. -/
def keptNames (names : List CString) : List CString -> List CString
  | [] => []
  | entry :: rest =>
      (if keptBy names entry then [entry] else []) ++
        rest.filter (keptBy (names.take 1))

theorem scanDisable_spec {buf : List Char} {s : CString} (h : Holds buf s)
    (entry : CString) :
    (scanDisable buf entry).1 = decide (entry ∈ tokens ',' s) ∧
      exists s', Holds (scanDisable buf entry).2 s' ∧
        tokens ',' s' = (tokens ',' s).take 1 := by
  refine ⟨scan_found (p := 0) h ?_, scan_holds h⟩
  rcases h with ⟨_, post, hbuf⟩
  have hlen := congrArg List.length hbuf
  rw [List.length_append] at hlen
  omega

theorem findLoop_cons {buf : List Char} {s : CString} (h : Holds buf s)
    (filled free : List BurninScript) (entry : CString) (rest : List CString) :
    exists buf' s', Holds buf' s' ∧ tokens ',' s' = (tokens ',' s).take 1 ∧
      findLoop buf filled free (entry :: rest) =
        if keptBy (tokens ',' s) entry then
          match free with
          | [] => none
          | old :: free' =>
              findLoop buf' (filled ++ [fillSlot old entry]) free' rest
        else
          findLoop buf' filled free rest := by
  rcases scanDisable_spec h entry with ⟨hfound, s', hholds, htokens⟩
  refine ⟨_, s', hholds, htokens, ?_⟩
  rw [findLoop.eq_def]
  simp only [hfound]
  by_cases hmem : entry ∈ tokens ',' s
  · simp [hmem, keptBy]
  · by_cases hdot : entry.head? = some '.'
    · simp [hmem, hdot, keptBy]
    · simp [hmem, hdot, keptBy]

/-- With at most one name left in the list, every further scan is the same. -/
theorem findLoop_rest {buf : List Char} {s : CString} (h : Holds buf s)
    {names : List CString} (hnames : tokens ',' s = names.take 1)
    (filled free : List BurninScript) (entries : List CString) :
    findLoop buf filled free entries =
      place filled free (entries.filter (keptBy (names.take 1))) := by
  induction entries generalizing buf s filled free with
  | nil => exact (place_nil filled free).symm
  | cons entry rest ih =>
      rcases findLoop_cons h filled free entry rest with
        ⟨buf', s', hholds, htokens, hloop⟩
      have hnames' : tokens ',' s' = names.take 1 := by
        rw [htokens, hnames, List.take_take, Nat.min_self]
      rw [hloop, hnames]
      by_cases hkept : keptBy (names.take 1) entry = true
      · rw [if_pos hkept, List.filter_cons_of_pos hkept]
        cases free with
        | nil => exact (place_full _ _ _).symm
        | cons old free' =>
            rw [place_cons]
            exact ih hholds hnames' _ _
      · rw [if_neg hkept, List.filter_cons_of_neg hkept]
        exact ih hholds hnames' _ _

theorem findLoop_eq {buf : List Char} {s : CString} (h : Holds buf s)
    (filled free : List BurninScript) (entries : List CString) :
    findLoop buf filled free entries =
      place filled free (keptNames (tokens ',' s) entries) := by
  cases entries with
  | nil => exact (place_nil filled free).symm
  | cons entry rest =>
      rcases findLoop_cons h filled free entry rest with
        ⟨buf', s', hholds, htokens, hloop⟩
      rw [hloop, keptNames]
      by_cases hkept : keptBy (tokens ',' s) entry = true
      · rw [if_pos hkept, if_pos hkept]
        cases free with
        | nil => exact (place_full _ _ _).symm
        | cons old free' =>
            rw [List.singleton_append, place_cons]
            exact findLoop_rest hholds htokens _ _ _
      · rw [if_neg hkept, if_neg hkept]
        exact findLoop_rest hholds htokens _ _ _

theorem disableBuffer_holds {optarg : CString} (hnul : NUL ∉ optarg)
    (hlen : optarg.length < DISABLE_SIZE) :
    Holds (disableBuffer optarg) optarg := by
  refine ⟨hnul, List.replicate (DISABLE_SIZE - optarg.length - 1) NUL, ?_⟩
  have hroom : DISABLE_SIZE - optarg.length =
      DISABLE_SIZE - optarg.length - 1 + 1 := by omega
  unfold disableBuffer
  rw [snprintf_eq_self hlen, ← List.replicate_succ, ← hroom]

/-!
# Disabled tests
-/

theorem keptBy_take_iff (names : List CString) (entry : CString) :
    keptBy (names.take 1) entry = keptBy names entry <->
      (entry.head? ≠ some '.' -> entry ∈ names -> some entry = names.head?) := by
  have hfirst : entry ∈ names.take 1 <-> some entry = names.head? := by
    cases names with
    | nil => simp
    | cons name rest => simp
  unfold keptBy
  by_cases hdot : entry.head? = some '.'
  · simp [hdot]
  · by_cases hmem : entry ∈ names
    · by_cases hhead : some entry = names.head?
      · have hin := hfirst.mpr hhead
        simp [hdot, hmem, hhead, hin]
      · have hout : entry ∉ names.take 1 := fun h => hhead (hfirst.mp h)
        simp [hdot, hmem, hhead, hout]
    · have hout : entry ∉ names.take 1 := fun h => hmem (List.mem_of_mem_take h)
      simp [hdot, hmem, hout]

theorem filter_eq_filter_iff {α : Type} {l : List α} {p q : α -> Bool} :
    l.filter p = l.filter q <-> forall a, a ∈ l -> p a = q a := by
  constructor
  · intro h a ha
    have hp : a ∈ l.filter p <-> a ∈ l.filter q := by rw [h]
    simp only [List.mem_filter, ha, true_and] at hp
    exact Bool.eq_iff_iff.mpr hp
  · exact List.filter_congr

/-- Of the disabled names only the first of the list is among these entries. -/
def FirstNameOnly (disable : CString) (entries : List CString) : Prop :=
  forall entry, entry ∈ entries -> entry.head? ≠ some '.' ->
    entry ∈ tokens ',' disable -> some entry = (tokens ',' disable).head?

theorem keptNames_eq_iff (disable : CString) (listing : List CString) :
    keptNames (tokens ',' disable) listing =
        listing.filter (keptBy (tokens ',' disable)) <->
      FirstNameOnly disable listing.tail := by
  cases listing with
  | nil => simp [keptNames, FirstNameOnly]
  | cons entry rest =>
      have hsplit : (entry :: rest).filter (keptBy (tokens ',' disable)) =
          (if keptBy (tokens ',' disable) entry then [entry] else []) ++
            rest.filter (keptBy (tokens ',' disable)) := by
        by_cases hkept : keptBy (tokens ',' disable) entry = true
        · simp [hkept]
        · simp [hkept]
      rw [keptNames, hsplit, List.append_cancel_left_eq, filter_eq_filter_iff]
      simp only [keptBy_take_iff, List.tail_cons, FirstNameOnly]

def wantedNames (disable : CString) (listing : List CString) : List CString :=
  listing.filter (keptBy (tokens ',' disable))

section Find

variable {disable : CString} {table : List BurninScript}
variable {listing : List CString}

def FindsWanted (disable : CString) (table : List BurninScript)
    (listing : List CString) : Prop :=
  exists filled, findBurninTests disable table (some listing) = some filled ∧
    FilledWith filled (wantedNames disable listing)

def OrderFree (disable : CString) (table : List BurninScript)
    (listing : List CString) : Prop :=
  forall a b : List CString, a.Perm listing -> b.Perm listing ->
    exists s t, findBurninTests disable table (some a) = some s ∧
      findBurninTests disable table (some b) = some t ∧
        (s.map BurninScript.name).Perm (t.map BurninScript.name)

theorem findBurninTests_eq (hnul : NUL ∉ disable)
    (hlen : disable.length < DISABLE_SIZE) :
    findBurninTests disable table (some listing) =
      place [] table (keptNames (tokens ',' disable) listing) :=
  findLoop_eq (disableBuffer_holds hnul hlen) [] table listing

/-- At the start of the program the slots filled are those a run starts from. -/
theorem findBurninTests_found {filled : List BurninScript} (hnul : NUL ∉ disable)
    (hlen : disable.length < DISABLE_SIZE)
    (h : findBurninTests disable emptyTable (some listing) = some filled) :
    filled =
      (keptNames (tokens ',' disable) listing).map BurninScript.found := by
  rw [findBurninTests_eq hnul hlen] at h
  unfold place at h
  split at h
  · rename_i hroom
    cases h
    rw [List.nil_append]
    exact zipWith_emptyTable (by simpa [emptyTable] using hroom)
  · cases h

theorem place_filledWith {names : List CString} {filled : List BurninScript}
    (h : place [] table names = some filled) : FilledWith filled names := by
  unfold place at h
  split at h
  · rename_i hroom
    cases h
    exact filledWith_zip hroom
  · cases h

theorem findsWanted_iff (hnul : NUL ∉ disable)
    (hlen : disable.length < DISABLE_SIZE)
    (hfit : (wantedNames disable listing).length ≤ table.length) :
    FindsWanted disable table listing <->
      FirstNameOnly disable listing.tail := by
  unfold FindsWanted
  rw [findBurninTests_eq hnul hlen, ← keptNames_eq_iff]
  constructor
  · rintro ⟨filled, hfilled, hnames, _⟩
    rw [← (place_filledWith hfilled).left, hnames]
    rfl
  · intro hsame
    have hwanted : keptNames (tokens ',' disable) listing =
        wantedNames disable listing := hsame
    rw [hwanted]
    have hplace : place [] table (wantedNames disable listing) = some _ :=
      if_pos hfit
    exact ⟨_, hplace, place_filledWith hplace⟩

theorem findBurninTests_names {filled : List BurninScript} (hnul : NUL ∉ disable)
    (hlen : disable.length < DISABLE_SIZE)
    (h : findBurninTests disable table (some listing) = some filled) :
    filled.map BurninScript.name = keptNames (tokens ',' disable) listing := by
  rw [findBurninTests_eq hnul hlen] at h
  exact (place_filledWith h).left

theorem FirstNameOnly.perm_tail {a : List CString} (hperm : a.Perm listing)
    (h : FirstNameOnly disable listing) : FirstNameOnly disable a.tail := by
  intro entry hmem
  exact h entry (hperm.mem_iff.mp (List.mem_of_mem_tail hmem))

theorem FirstNameOnly.orderFree (hnul : NUL ∉ disable)
    (hlen : disable.length < DISABLE_SIZE)
    (hfit : (wantedNames disable listing).length ≤ table.length)
    (h : FirstNameOnly disable listing) : OrderFree disable table listing := by
  have hfind : forall a : List CString, a.Perm listing ->
      FindsWanted disable table a := by
    intro a ha
    have hsame : (wantedNames disable a).Perm (wantedNames disable listing) :=
      ha.filter _
    rw [← hsame.length_eq] at hfit
    exact (findsWanted_iff hnul hlen hfit).mpr (h.perm_tail ha)
  intro a b ha hb
  rcases hfind a ha with ⟨s, hs, hnamesA, _⟩
  rcases hfind b hb with ⟨t, ht, hnamesB, _⟩
  refine ⟨s, t, hs, ht, ?_⟩
  rw [hnamesA, hnamesB]
  exact (ha.trans hb.symm).filter _

theorem OrderFree.firstNameOnly (hnul : NUL ∉ disable)
    (hlen : disable.length < DISABLE_SIZE) (hdot : ['.'] ∈ listing)
    (h : OrderFree disable table listing) : FirstNameOnly disable listing := by
  intro entry hmem hvisible hdisabled
  by_contra hfirst
  have hne : ['.'] ≠ entry := by
    intro heq
    exact hvisible (heq ▸ rfl)
  have hdot' : ['.'] ∈ listing.erase entry := (List.mem_erase_of_ne hne).mpr hdot
  generalize hrest : (listing.erase entry).erase ['.'] = rest
  have hfront : (entry :: ['.'] :: rest).Perm listing := by
    rw [← hrest]
    exact ((List.perm_cons_erase hmem).trans
      ((List.perm_cons_erase hdot').cons entry)).symm
  have hbehind : (['.'] :: entry :: rest).Perm listing :=
    (List.Perm.swap _ _ _).trans hfront
  rcases h _ _ hfront hbehind with ⟨s, t, hs, ht, hperm⟩
  have hout : keptBy (tokens ',' disable) entry = false := by
    simp [keptBy, hdisabled]
  have hlater : keptBy ((tokens ',' disable).take 1) entry = true := by
    have hdiffer := mt (keptBy_take_iff (tokens ',' disable) entry).mp
      fun hagree => hfirst (hagree hvisible hdisabled)
    rw [hout] at hdiffer
    simpa using hdiffer
  have hskip : forall names, keptBy names ['.'] = false := by
    intro names
    simp [keptBy]
  have hlength := hperm.length_eq
  rw [findBurninTests_names hnul hlen hs, findBurninTests_names hnul hlen ht]
    at hlength
  simp [keptNames, hout, hskip, hlater] at hlength

end Find

/-- `find_burnin_tests` keeps exactly the wanted entries, in listing order, when
every disabled entry behind the first of the listing is the first name of the
disable list, and only then; it keeps the same tests in every order when that
holds for every entry of the listing. -/
theorem findBurninTests_iff (disable : CString) (table : List BurninScript)
    (listing : List CString) (hnul : NUL ∉ disable)
    (hlen : disable.length < DISABLE_SIZE)
    (htable : table.length = MAX_BURNIN_SCRIPTS)
    (hfit : (wantedNames disable listing).length ≤ MAX_BURNIN_SCRIPTS) :
    (FindsWanted disable table listing <->
      FirstNameOnly disable listing.tail) ∧
    (['.'] ∈ listing ->
      (OrderFree disable table listing <-> FirstNameOnly disable listing)) := by
  rw [← htable] at hfit
  refine ⟨findsWanted_iff hnul hlen hfit, fun hdot => ?_⟩
  constructor
  · exact OrderFree.firstNameOnly hnul hlen hdot
  · exact FirstNameOnly.orderFree hnul hlen hfit

theorem findBurninTests_oneName :
    FindsWanted "hpl".toList emptyTable
      [".".toList, "..".toList, "ecc".toList, "hpl".toList] ∧
    OrderFree "hpl".toList emptyTable
      [".".toList, "..".toList, "ecc".toList, "hpl".toList] := by
  have hfind := findBurninTests_iff "hpl".toList emptyTable
    [".".toList, "..".toList, "ecc".toList, "hpl".toList]
    (by decide) (by decide) List.length_replicate (by decide)
  refine ⟨hfind.left.mpr ?_, (hfind.right (by decide)).mpr ?_⟩
  · unfold FirstNameOnly
    decide
  · unfold FirstNameOnly
    decide

/-- Of two disabled tests the second of the list is kept. -/
theorem findBurninTests_keeps_disabled :
    findBurninTests "hpl,ecc".toList emptyTable
        (some [".".toList, "..".toList, "ecc".toList, "hpl".toList]) =
      some [BurninScript.found "ecc".toList] ∧
    ¬ FindsWanted "hpl,ecc".toList emptyTable
        [".".toList, "..".toList, "ecc".toList, "hpl".toList] ∧
    ¬ OrderFree "hpl,ecc".toList emptyTable
        [".".toList, "..".toList, "ecc".toList, "hpl".toList] := by
  have hnul : NUL ∉ "hpl,ecc".toList := by decide
  have hlen : "hpl,ecc".toList.length < DISABLE_SIZE := by decide
  have hcond : ¬ FirstNameOnly "hpl,ecc".toList
      ["..".toList, "ecc".toList, "hpl".toList] := by
    unfold FirstNameOnly
    decide
  refine ⟨?_, ?_, ?_⟩
  · rw [findBurninTests_eq hnul hlen]
    rfl
  · intro hfind
    exact hcond ((findsWanted_iff hnul hlen (by decide)).mp hfind)
  · intro hfree
    have hall := OrderFree.firstNameOnly hnul hlen (by decide) hfree
    exact hcond (hall.perm_tail (List.Perm.refl _))

end Scheduler
end Breakin
