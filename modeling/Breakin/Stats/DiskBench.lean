import Breakin.Foundation.Runs
import Breakin.Stats.Disks

/-!
# Benchmarking the disks

`run_benchmarks` measures the disks one after the other and stores each result by
its slot, while the update thread lists the disks anew every few seconds.
-/

namespace Breakin
namespace Stats

open Foundation

/-- Where `run_benchmarks` is: outside, at the test of its loop, about to read the
name in slot `i`, measuring the device it read, or about to store a result. -/
inductive BenchPC where
  | idle
  | test (i : Nat)
  | read (i : Nat)
  | measure (i : Nat) (device : CString)
  | storing (i : Nat) (device : CString) (result : Double)
deriving DecidableEq

/-- The tables of both threads.  `results` is the history: what `bench_disk`
returned, and for which device. -/
structure DiskState where
  diskQty : Nat
  table : List DiskInfo
  pc : BenchPC
  results : List (CString × Double)
deriving DecidableEq

/-- A whole call of `get_hd_info`, with its listing and what its buffer held, and
the steps of `run_benchmarks`. -/
inductive DiskEvent where
  | hdInfo (listing : Option (List BlockEntry)) (buf : CString)
  | start
  | loopTest
  | readDevice
  | benchDisk (result : Double)
  | store
deriving DecidableEq

def diskStep (s : DiskState) : DiskEvent -> Option DiskState
  | .hdInfo listing buf =>
      (getHdInfo listing buf s.diskQty s.table).map fun r =>
        { s with diskQty := r.1, table := r.2 }
  | .start =>
      match s.pc with
      | .idle => some { s with pc := .test 0 }
      | _ => none
  | .loopTest =>
      match s.pc with
      | .test i =>
          if i < s.diskQty then some { s with pc := .read i }
          else some { s with pc := .idle }
      | _ => none
  | .readDevice =>
      match s.pc with
      | .read i =>
          s.table[i]?.map fun disk => { s with pc := .measure i disk.device }
      | _ => none
  | .benchDisk result =>
      match s.pc with
      | .measure i device =>
          some
            { s with
              pc := .storing i device result
              results := s.results ++ [(device, result)] }
      | _ => none
  | .store =>
      match s.pc with
      | .storing i _ result => do
          let old ← s.table[i]?
          let table' ← Foundation.store s.table i
            { old with performance := result }
          some { s with table := table', pc := .test (i + 1) }
      | _ => none

def zeroDisk : DiskInfo where
  device := []
  size := Double.zero
  performance := Double.zero

def diskStart : DiskState where
  diskQty := 0
  table := List.replicate MAX_DISKS zeroDisk
  pc := .idle
  results := []

def Measured (s : DiskState) (device : CString) (performance : Double) : Prop :=
  performance = Double.zero ∨ (device, performance) ∈ s.results

instance (s : DiskState) (device : CString) (performance : Double) :
    Decidable (Measured s device performance) :=
  inferInstanceAs (Decidable (_ ∨ _))

def OwnResults (s : DiskState) : Prop :=
  forall (i : Nat) (disk : DiskInfo), i < s.diskQty ->
    s.table[i]? = some disk -> Measured s disk.device disk.performance

/-- Neither of the two faulty steps: a call of `get_hd_info` that puts a disk into a
slot with the result of another, and a result that is stored, by its slot number, for
a disk that has come into the slot since.  With the same listing all the time there is
none of them. -/
def KeepsOwners (s : DiskState) : DiskEvent -> Prop
  | .hdInfo (some entries) buf =>
      forall (k : Nat) (r : DiskRecord) (disk : DiskInfo),
        (recorded entries buf)[k]? = some r -> s.table[k]? = some disk ->
          Measured s r.device disk.performance
  | .store =>
      forall i device result (disk : DiskInfo),
        s.pc = .storing i device result -> i < s.diskQty ->
          s.table[i]? = some disk ->
          Measured s disk.device result
  | _ => True

/-- All listings record the same disks, each in the same slot. -/
def SameListing (names : List CString) (_ : DiskState) : DiskEvent -> Prop
  | .hdInfo (some entries) buf =>
      (recorded entries buf).map DiskRecord.device = names
  | _ => True

/-!
# One step
-/

inductive DiskMove (s : DiskState) : DiskEvent -> DiskState -> Prop where
  | noListing (buf : CString) : DiskMove s (.hdInfo none buf) s
  | listed (entries : List BlockEntry) (buf : CString) (table : List DiskInfo)
      (hlength : table.length = MAX_DISKS)
      (htable : forall k : Nat, table[k]? =
        match (recorded entries buf)[k]? with
        | none => s.table[k]?
        | some r => s.table[k]?.map (writeDisk r)) :
      DiskMove s (.hdInfo (some entries) buf)
        { s with diskQty := (recorded entries buf).length, table := table }
  | started (hpc : s.pc = .idle) : DiskMove s .start { s with pc := .test 0 }
  | goesOn (i : Nat) (hpc : s.pc = .test i) (hi : i < s.diskQty) :
      DiskMove s .loopTest { s with pc := .read i }
  | ends (i : Nat) (hpc : s.pc = .test i) (hi : ¬ i < s.diskQty) :
      DiskMove s .loopTest { s with pc := .idle }
  | hasRead (i : Nat) (disk : DiskInfo) (hpc : s.pc = .read i)
      (hdisk : s.table[i]? = some disk) :
      DiskMove s .readDevice { s with pc := .measure i disk.device }
  | measured (i : Nat) (device : CString) (result : Double)
      (hpc : s.pc = .measure i device) :
      DiskMove s (.benchDisk result)
        { s with
          pc := .storing i device result
          results := s.results ++ [(device, result)] }
  | stored (i : Nat) (device : CString) (result : Double) (disk : DiskInfo)
      (hpc : s.pc = .storing i device result)
      (hdisk : s.table[i]? = some disk) :
      DiskMove s .store
        { s with
          table := s.table.set i { disk with performance := result }
          pc := .test (i + 1) }

theorem diskStep_move {s u : DiskState} {e : DiskEvent}
    (htable : s.table.length = MAX_DISKS) (h : diskStep s e = some u) :
    DiskMove s e u := by
  cases e with
  | hdInfo listing buf =>
      cases listing with
      | none =>
          cases h
          exact .noListing buf
      | some entries =>
          rcases getHdInfo_some entries buf s.diskQty htable
            with ⟨table, hcall, hlength, hslots⟩
          simp only [diskStep, hcall, Option.map_some, Option.some.injEq] at h
          rw [← h]
          exact .listed entries buf table hlength hslots
  | start =>
      simp only [diskStep] at h
      split at h
      · rename_i hpc
        cases h
        exact .started hpc
      · cases h
  | loopTest =>
      simp only [diskStep] at h
      split at h
      · rename_i i hpc
        split at h
        · rename_i hi
          cases h
          exact .goesOn i hpc hi
        · rename_i hi
          cases h
          exact .ends i hpc hi
      · cases h
  | readDevice =>
      simp only [diskStep] at h
      split at h
      · rename_i i hpc
        rcases Option.map_eq_some_iff.mp h with ⟨disk, hdisk, heq⟩
        rw [← heq]
        exact .hasRead i disk hpc hdisk
      · cases h
  | benchDisk result =>
      simp only [diskStep] at h
      split at h
      · rename_i i device hpc
        cases h
        exact .measured i device result hpc
      · cases h
  | store =>
      simp only [diskStep] at h
      split at h
      · rename_i i device result hpc
        cases hdisk : s.table[i]? with
        | none => simp [hdisk] at h
        | some disk =>
            have hi := (List.getElem?_eq_some_iff.mp hdisk).1
            simp only [hdisk, store_of_lt hi, Option.bind_eq_bind,
              Option.bind_some, Option.some.injEq] at h
            rw [← h]
            exact .stored i device result disk hpc hdisk
      · cases h

structure DiskFacts (s : DiskState) : Prop where
  length : s.table.length = MAX_DISKS
  returned : forall i device result, s.pc = .storing i device result ->
    (device, result) ∈ s.results

theorem diskFacts_start : DiskFacts diskStart :=
  ⟨List.length_replicate, fun _ _ _ hpc => (by cases hpc)⟩

theorem DiskFacts.step {s u : DiskState} {e : DiskEvent} (h : DiskFacts s)
    (hmove : DiskMove s e u) : DiskFacts u := by
  cases hmove with
  | noListing buf => exact h
  | listed entries buf table hlength htable => exact ⟨hlength, h.returned⟩
  | started hpc => exact ⟨h.length, fun _ _ _ hpc' => (by cases hpc')⟩
  | goesOn i hpc hi => exact ⟨h.length, fun _ _ _ hpc' => (by cases hpc')⟩
  | ends i hpc hi => exact ⟨h.length, fun _ _ _ hpc' => (by cases hpc')⟩
  | hasRead i disk hpc hdisk =>
      exact ⟨h.length, fun _ _ _ hpc' => (by cases hpc')⟩
  | measured i device result hpc =>
      refine ⟨h.length, fun _ _ _ hpc' => ?_⟩
      cases hpc'
      simp
  | stored i device result disk hpc hdisk =>
      refine ⟨?_, fun _ _ _ hpc' => (by cases hpc')⟩
      change (s.table.set i _).length = MAX_DISKS
      rw [List.length_set]
      exact h.length

theorem diskFacts_reachable {evs : List DiskEvent} {s : DiskState}
    (hrun : runFrom diskStep diskStart evs = some s) : DiskFacts s :=
  runFrom_history (R := fun _ s => DiskFacts s) diskFacts_start
    (fun _ _ _ _ _ ih hstep => ih.step (diskStep_move ih.length hstep)) hrun

/-!
# Results and their disks
-/

theorem slot_listed {s : DiskState} {entries : List BlockEntry}
    {buf : CString} {table : List DiskInfo}
    (htable : forall k : Nat, table[k]? =
      match (recorded entries buf)[k]? with
      | none => s.table[k]?
      | some r => s.table[k]?.map (writeDisk r))
    {k : Nat} {r : DiskRecord} (hr : (recorded entries buf)[k]? = some r)
    {disk : DiskInfo} (hdisk : s.table[k]? = some disk) :
    table[k]? = some (writeDisk r disk) := by
  rw [htable, hr, hdisk]
  rfl

theorem slot_before {s : DiskState} {entries : List BlockEntry}
    {buf : CString} {table : List DiskInfo}
    (htable : forall k : Nat, table[k]? =
      match (recorded entries buf)[k]? with
      | none => s.table[k]?
      | some r => s.table[k]?.map (writeDisk r))
    {k : Nat} {disk : DiskInfo} (hdisk : table[k]? = some disk) :
    exists old, s.table[k]? = some old ∧
      disk.performance = old.performance ∧
        forall r, (recorded entries buf)[k]? = some r ->
          disk = writeDisk r old := by
  rw [htable] at hdisk
  cases hr : (recorded entries buf)[k]? with
  | none =>
      rw [hr] at hdisk
      refine ⟨disk, hdisk, rfl, ?_⟩
      intro r hsome
      cases hsome
  | some r =>
      rw [hr] at hdisk
      rcases Option.map_eq_some_iff.mp hdisk with ⟨old, hold, heq⟩
      refine ⟨old, hold, ?_, ?_⟩
      · rw [← heq]
        rfl
      · intro r' hsome
        cases hsome
        exact heq.symm

theorem slot_stored {table : List DiskInfo} {i k : Nat}
    {old new disk : DiskInfo} (hold : table[i]? = some old)
    (hdisk : (table.set i new)[k]? = some disk) :
    (k = i ∧ disk = new) ∨ (k ≠ i ∧ table[k]? = some disk) := by
  by_cases hki : k = i
  · rw [hki, List.getElem?_set_self (List.getElem?_eq_some_iff.mp hold).1]
      at hdisk
    exact Or.inl ⟨hki, (Option.some.inj hdisk).symm⟩
  · rw [List.getElem?_set_ne (Ne.symm hki)] at hdisk
    exact Or.inr ⟨hki, hdisk⟩

theorem OwnResults.step {s u : DiskState} {e : DiskEvent} (h : OwnResults s)
    (hmeet : KeepsOwners s e) (hmove : DiskMove s e u) : OwnResults u := by
  cases hmove with
  | noListing buf => exact h
  | listed entries buf table hlength htable =>
      intro i disk hi hdisk
      have hrecord : (recorded entries buf)[i]? =
          some (recorded entries buf)[i] := List.getElem?_eq_getElem hi
      rcases slot_before htable hdisk with ⟨old, hold, _, hwritten⟩
      rw [hwritten _ hrecord]
      exact hmeet i _ old hrecord hold
  | started hpc => exact h
  | goesOn i hpc hi => exact h
  | ends i hpc hi => exact h
  | hasRead i disk hpc hdisk => exact h
  | measured i device result hpc =>
      intro i' disk hi hdisk
      exact (h i' disk hi hdisk).imp id fun hin => List.mem_append_left _ hin
  | stored i device result old hpc hold =>
      intro i' disk hi hdisk
      rcases slot_stored hold hdisk with ⟨heq, hnew⟩ | ⟨_, hkept⟩
      · rw [heq] at hi
        rw [hnew]
        exact hmeet i device result old hpc hi hold
      · exact h i' disk hi hkept

/-- A step that breaks the condition is followed by a state with another disk's
result. -/
theorem keepsOwners_of_ownResults {s : DiskState} {e : DiskEvent}
    (htable : s.table.length = MAX_DISKS)
    (hafter : forall u, diskStep s e = some u -> OwnResults u) :
    KeepsOwners s e := by
  cases e with
  | hdInfo listing buf =>
      cases listing with
      | none => trivial
      | some entries =>
          intro k r disk hr hdisk
          rcases getHdInfo_some entries buf s.diskQty htable
            with ⟨table, hcall, _, hslots⟩
          have hk := (List.getElem?_eq_some_iff.mp hr).1
          have hown := hafter _ (by
            simp only [diskStep, hcall, Option.map_some]
            rfl)
          exact hown k _ hk (slot_listed hslots hr hdisk)
  | store =>
      intro i device result disk hpc hi hdisk
      have hin := (List.getElem?_eq_some_iff.mp hdisk).1
      have hown := hafter
        { s with
          table := s.table.set i { disk with performance := result }
          pc := .test (i + 1) } (by
        simp only [diskStep, hpc, hdisk, Foundation.store, hin, if_true,
          Option.bind_eq_bind, Option.bind_some])
      exact hown i { disk with performance := result } hi
        (List.getElem?_set_self hin)
  | start => trivial
  | loopTest => trivial
  | readDevice => trivial
  | benchDisk result => trivial

theorem ownResults_iff_keepsOwners (evs : List DiskEvent) :
    Along diskStep diskStart evs OwnResults <->
      StepsMeet diskStep diskStart evs KeepsOwners := by
  constructor
  · intro hall pre e post s hevs hrun
    apply keepsOwners_of_ownResults (diskFacts_reachable hrun).length
    intro u hstep
    exact hall (pre ++ [e]) post u (by simp [hevs])
      (runFrom_snoc.mpr ⟨s, hrun, hstep⟩)
  · intro hmeet
    have hboth : Along diskStep diskStart evs
        (fun s => DiskFacts s ∧ OwnResults s) := by
      refine along_invariant ?_ ⟨diskFacts_start, ?_⟩ hmeet
      · intro s e u h hin hstep
        have hmove := diskStep_move h.left.length hstep
        exact ⟨h.left.step hmove, h.right.step hin hmove⟩
      · intro i disk hi
        cases hi
    intro pre post s hevs hrun
    exact (hboth pre post s hevs hrun).right

/-!
# The same disks all the time
-/

structure Settled (names : List CString) (s : DiskState) : Prop where
  listed : s.diskQty = 0 ∨ (s.diskQty = names.length ∧
    forall (k : Nat) (disk : DiskInfo) (name : CString),
      s.table[k]? = some disk -> names[k]? = some name -> disk.device = name)
  reading : forall i, s.pc = .read i ->
    i < names.length ∧ s.diskQty = names.length
  measuring : forall i device, s.pc = .measure i device ->
    names[i]? = some device
  storing : forall i device result, s.pc = .storing i device result ->
    names[i]? = some device
  results : forall (k : Nat) (disk : DiskInfo), s.table[k]? = some disk ->
    disk.performance = Double.zero ∨
      exists name, names[k]? = some name ∧
        (name, disk.performance) ∈ s.results

theorem settled_start (names : List CString) : Settled names diskStart := by
  refine ⟨Or.inl rfl, fun _ hpc => (by cases hpc), fun _ _ hpc => (by cases hpc),
    fun _ _ _ hpc => (by cases hpc), ?_⟩
  intro k disk hdisk
  left
  rw [List.eq_of_mem_replicate (List.mem_of_getElem? hdisk)]
  rfl

theorem Settled.keepsOwners {names : List CString} {s : DiskState}
    {e : DiskEvent} (h : Settled names s) (hfacts : DiskFacts s)
    (hsame : SameListing names s e) : KeepsOwners s e := by
  cases e with
  | hdInfo listing buf =>
      cases listing with
      | none => trivial
      | some entries =>
          intro k r disk hr hdisk
          have hname : names[k]? = some r.device := by
            rw [← show (recorded entries buf).map DiskRecord.device = names
              from hsame, List.getElem?_map, hr]
            rfl
          rcases h.results k disk hdisk with hzero | ⟨name, hk, hin⟩
          · exact Or.inl hzero
          · rw [hname, Option.some.injEq] at hk
            rw [← hk] at hin
            exact Or.inr hin
  | store =>
      intro i device result disk hpc hi hdisk
      have hname := h.storing i device result hpc
      rcases h.listed with hzero | ⟨_, hnames⟩
      · omega
      · rw [hnames i disk device hdisk hname]
        exact Or.inr (hfacts.returned i device result hpc)
  | start => trivial
  | loopTest => trivial
  | readDevice => trivial
  | benchDisk result => trivial

theorem Settled.step {names : List CString} {s u : DiskState}
    {e : DiskEvent} (h : Settled names s) (hfacts : DiskFacts s)
    (hsame : SameListing names s e) (hmove : DiskMove s e u) :
    Settled names u := by
  cases hmove with
  | noListing buf => exact h
  | listed entries buf table hlength htable =>
      have hnames : (recorded entries buf).map DiskRecord.device = names := hsame
      have hqty : (recorded entries buf).length = names.length := by
        rw [← hnames, List.length_map]
      refine ⟨Or.inr ⟨hqty, ?_⟩, ?_, h.measuring, h.storing, ?_⟩
      · intro k disk name hdisk hname
        rw [← hnames, List.getElem?_map] at hname
        rcases Option.map_eq_some_iff.mp hname with ⟨r, hr, hdevice⟩
        rcases slot_before htable hdisk with ⟨old, _, _, hwritten⟩
        rw [hwritten r hr]
        exact hdevice
      · intro i hpc
        exact ⟨(h.reading i hpc).left, hqty⟩
      · intro k disk hdisk
        rcases slot_before htable hdisk with ⟨old, hold, hsame, _⟩
        rw [hsame]
        exact h.results k old hold
  | started hpc =>
      exact ⟨h.listed, fun _ hpc' => (by cases hpc'),
        fun _ _ hpc' => (by cases hpc'), fun _ _ _ hpc' => (by cases hpc'),
        h.results⟩
  | goesOn i hpc hi =>
      refine ⟨h.listed, ?_, fun _ _ hpc' => (by cases hpc'),
        fun _ _ _ hpc' => (by cases hpc'), h.results⟩
      intro i' hpc'
      cases hpc'
      rcases h.listed with hzero | ⟨hqty, _⟩
      · omega
      · exact ⟨by omega, hqty⟩
  | ends i hpc hi =>
      exact ⟨h.listed, fun _ hpc' => (by cases hpc'),
        fun _ _ hpc' => (by cases hpc'), fun _ _ _ hpc' => (by cases hpc'),
        h.results⟩
  | hasRead i disk hpc hdisk =>
      refine ⟨h.listed, fun _ hpc' => (by cases hpc'), ?_,
        fun _ _ _ hpc' => (by cases hpc'), h.results⟩
      intro i' device hpc'
      cases hpc'
      rcases h.reading i hpc with ⟨hi, hqty⟩
      have hname : names[i]? = some names[i] := List.getElem?_eq_getElem hi
      rcases h.listed with hzero | ⟨_, hnames⟩
      · omega
      · rw [hname, hnames i disk names[i] hdisk hname]
  | measured i device result hpc =>
      refine ⟨h.listed, fun _ hpc' => (by cases hpc'),
        fun _ _ hpc' => (by cases hpc'), ?_, ?_⟩
      · intro i' device' result' hpc'
        cases hpc'
        exact h.measuring i device hpc
      · intro k disk hdisk
        rcases h.results k disk hdisk with hzero | ⟨name, hname, hin⟩
        · exact Or.inl hzero
        · exact Or.inr ⟨name, hname, List.mem_append_left _ hin⟩
  | stored i device result old hpc hold =>
      refine ⟨?_, fun _ hpc' => (by cases hpc'),
        fun _ _ hpc' => (by cases hpc'), fun _ _ _ hpc' => (by cases hpc'), ?_⟩
      · refine h.listed.imp id fun hlisted => ⟨hlisted.left, ?_⟩
        intro k disk name hdisk hname
        rcases slot_stored hold hdisk with ⟨hk, hnew⟩ | ⟨_, hkept⟩
        · rw [hnew]
          rw [hk] at hname
          exact hlisted.right i old name hold hname
        · exact hlisted.right k disk name hkept hname
      · intro k disk hdisk
        rcases slot_stored hold hdisk with ⟨hk, hnew⟩ | ⟨_, hkept⟩
        · rw [hk, hnew]
          exact Or.inr ⟨device, h.storing i device result hpc,
            hfacts.returned i device result hpc⟩
        · exact h.results k disk hkept

theorem settled_reachable {names : List CString} {evs : List DiskEvent}
    {s : DiskState}
    (hmeet : StepsMeet diskStep diskStart evs (SameListing names))
    (hrun : runFrom diskStep diskStart evs = some s) : Settled names s := by
  have hboth : DiskFacts s ∧ Settled names s := by
    refine runFrom_invariant (P := fun s => DiskFacts s ∧ Settled names s)
      ?_ ⟨diskFacts_start, settled_start names⟩ hmeet hrun
    intro s e u h hsame hstep
    have hmove := diskStep_move h.left.length hstep
    exact ⟨h.left.step hmove, h.right.step h.left hsame hmove⟩
  exact hboth.right

/-- Every disk has its own result exactly as long as no listing moves another disk
into a slot with a result, and so in every run with one and the same listing. -/
theorem diskResults_own (evs : List DiskEvent) :
    (Along diskStep diskStart evs OwnResults <->
      StepsMeet diskStep diskStart evs KeepsOwners) ∧
    forall names, StepsMeet diskStep diskStart evs (SameListing names) ->
      Along diskStep diskStart evs OwnResults := by
  refine ⟨ownResults_iff_keepsOwners evs, fun names hmeet => ?_⟩
  rw [ownResults_iff_keepsOwners evs]
  intro pre e post s hevs hrun
  have hbefore : StepsMeet diskStep diskStart pre (SameListing names) := by
    rw [hevs] at hmeet
    exact hmeet.of_append
  exact (settled_reachable hbefore hrun).keepsOwners
    (diskFacts_reachable hrun) (hmeet pre e post s hevs hrun)

def diskEntry (name : CString) : BlockEntry where
  name := name
  removable := .token "0".toList
  size := .token "4194304".toList

/-- `sda` is measured, and then it is pulled: `sdb` moves up into its slot. -/
def pulledRun : List DiskEvent :=
  [.hdInfo (some [diskEntry "sda".toList, diskEntry "sdb".toList]) [],
    .start, .loopTest, .readDevice, .benchDisk (.finite false 150 0), .store,
    .hdInfo (some [diskEntry "sdb".toList]) []]

def pulledState : DiskState where
  diskQty := 1
  table :=
    { device := "sdb".toList
      size := diskSize "4194304".toList
      performance := .finite false 150 0 } ::
      { device := "sdb".toList
        size := diskSize "4194304".toList
        performance := Double.zero } :: List.replicate 22 zeroDisk
  pc := .test 1
  results := [("sda".toList, .finite false 150 0)]

theorem pulledRun_not_own :
    ¬ Along diskStep diskStart pulledRun OwnResults := by
  intro hall
  have hrun : runFrom diskStep diskStart pulledRun = some pulledState := by
    decide +kernel
  have hown := hall pulledRun [] pulledState (List.append_nil _).symm hrun 0
    _ (by decide) rfl
  rcases hown with hzero | hin
  · cases hzero
  · exact absurd hin (by decide)

end Stats
end Breakin
