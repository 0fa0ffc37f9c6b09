import Breakin.Foundation.Runs
import Breakin.Stats.DumpStats

/-!
# Publishing the stats file

`dump_stats` prints into a temporary file and then renames it.  No result of
`fprintf`, `fclose` or `rename` is looked at, and what the stream could not write
is gone.
-/

namespace Breakin
namespace Stats

open Foundation

/-- Where a call of `dump_stats` is: between two calls, at an `fprintf` with the
texts still to be printed, or after `fclose`. -/
inductive DumpPC where
  | idle
  | printing (t : Tables) (rest : List CString)
  | closed (t : Tables)
deriving DecidableEq

/-- `STAT_FILE_TMP`, `STAT_FILE`, and the stream's buffer.  The rest is history:
the file as it was when the last call began, whether anything in that call went
wrong, the calls made, and those that came through. -/
structure StatFiles where
  tmp : Option (List Char)
  stat : Option (List Char)
  buffer : List Char
  pc : DumpPC
  before : Option (List Char)
  failed : Bool
  calls : List Tables
  completed : List Tables
deriving DecidableEq

/-- The calls of the library with their results.  `write` is the stream emptying
its buffer: it writes `kept` characters, and loses the next `dropped` to an error.
`fclose` writes `kept` characters, and loses the others. -/
inductive StatEvent where
  | fopen (t : Tables) (ok : Bool)
  | fprintf
  | write (kept dropped : Nat)
  | fclose (kept : Nat)
  | rename (ok : Bool)
deriving DecidableEq

def statPieces (t : Tables) : List CString :=
  (statVariables t).map printVariable

def statStep (s : StatFiles) : StatEvent -> Option StatFiles
  | .fopen t ok =>
      match s.pc with
      | .idle =>
          if ok then
            some
              { s with
                tmp := some []
                buffer := []
                pc := .printing t (statPieces t)
                before := s.stat
                failed := false
                calls := s.calls ++ [t] }
          else
            -- if (fp == NULL) return 1;
            some
              { s with
                before := s.stat
                failed := true
                calls := s.calls ++ [t] }
      | _ => none
  | .fprintf =>
      match s.pc with
      | .printing t (piece :: rest) =>
          some { s with buffer := s.buffer ++ piece, pc := .printing t rest }
      | _ => none
  | .write kept dropped =>
      match s.pc, s.tmp with
      | .printing _ _, some written =>
          if kept + dropped ≤ s.buffer.length then
            some
              { s with
                tmp := some (written ++ s.buffer.take kept)
                buffer := s.buffer.drop (kept + dropped)
                failed := s.failed || decide (0 < dropped) }
          else none
      | _, _ => none
  | .fclose kept =>
      match s.pc, s.tmp with
      | .printing t [], some written =>
          some
            { s with
              tmp := some (written ++ s.buffer.take kept)
              buffer := []
              pc := .closed t
              failed := s.failed || decide (kept < s.buffer.length) }
      | _, _ => none
  | .rename ok =>
      match s.pc with
      | .closed t =>
          if ok then
            some
              { s with
                tmp := none
                stat := s.tmp
                pc := .idle
                completed :=
                  if s.failed then s.completed else s.completed ++ [t] }
          else some { s with pc := .idle, failed := true }
      | _ => none

def statStart : StatFiles where
  tmp := none
  stat := none
  buffer := []
  pc := .idle
  before := none
  failed := false
  calls := []
  completed := []

/-- The file is absent while no call has come through, or the complete text of a
call. -/
def Published (s : StatFiles) : Prop :=
  (s.stat = none ∧ s.completed = []) ∨
    exists t, t ∈ s.calls ∧ s.stat = some (dumpStats t)

/-- The file is complete, and a call that fails leaves it as it was. -/
def Complete (s : StatFiles) : Prop :=
  Published s ∧ (s.failed = true -> s.stat = s.before)

/-- A rename after a failed write moves nothing new: the temporary file happens to
hold what is there already. -/
def RenamesWhole (s : StatFiles) (e : StatEvent) : Prop :=
  e = .rename true -> (exists t, s.pc = .closed t) -> s.failed = true ->
    s.tmp = s.stat

/-!
# One call
-/

theorem statPieces_flatten (t : Tables) : (statPieces t).flatten = dumpStats t :=
  List.flatMap_def.symm

structure Writing (s : StatFiles) : Prop where
  before : s.pc ≠ .idle -> s.before = s.stat
  printing : forall t rest, s.pc = .printing t rest ->
    t ∈ s.calls ∧ exists written, s.tmp = some written ∧
      (s.failed = false ->
        written ++ s.buffer ++ rest.flatten = dumpStats t)
  closed : forall t, s.pc = .closed t ->
    t ∈ s.calls ∧ exists written, s.tmp = some written ∧
      (s.failed = false -> written = dumpStats t)

theorem writing_start : Writing statStart where
  before := fun h => absurd rfl h
  printing := fun t rest h => by cases h
  closed := fun t h => by cases h

/-- The steps, with what each asks of the state. -/
inductive StatMove (s : StatFiles) : StatEvent -> StatFiles -> Prop where
  | opened (t : Tables) (hpc : s.pc = .idle) :
      StatMove s (.fopen t true)
        { s with
          tmp := some []
          buffer := []
          pc := .printing t (statPieces t)
          before := s.stat
          failed := false
          calls := s.calls ++ [t] }
  | notOpened (t : Tables) (hpc : s.pc = .idle) :
      StatMove s (.fopen t false)
        { s with
          before := s.stat
          failed := true
          calls := s.calls ++ [t] }
  | printed (t : Tables) (piece : CString) (rest : List CString)
      (hpc : s.pc = .printing t (piece :: rest)) :
      StatMove s .fprintf
        { s with buffer := s.buffer ++ piece, pc := .printing t rest }
  | written (kept dropped : Nat) (t : Tables) (rest : List CString)
      (content : List Char) (hpc : s.pc = .printing t rest)
      (htmp : s.tmp = some content)
      (hle : kept + dropped ≤ s.buffer.length) :
      StatMove s (.write kept dropped)
        { s with
          tmp := some (content ++ s.buffer.take kept)
          buffer := s.buffer.drop (kept + dropped)
          failed := s.failed || decide (0 < dropped) }
  | closed (kept : Nat) (t : Tables) (content : List Char)
      (hpc : s.pc = .printing t []) (htmp : s.tmp = some content) :
      StatMove s (.fclose kept)
        { s with
          tmp := some (content ++ s.buffer.take kept)
          buffer := []
          pc := .closed t
          failed := s.failed || decide (kept < s.buffer.length) }
  | renamed (t : Tables) (hpc : s.pc = .closed t) :
      StatMove s (.rename true)
        { s with
          tmp := none
          stat := s.tmp
          pc := .idle
          completed :=
            if s.failed then s.completed else s.completed ++ [t] }
  | notRenamed (t : Tables) (hpc : s.pc = .closed t) :
      StatMove s (.rename false) { s with pc := .idle, failed := true }

theorem statStep_move {s u : StatFiles} {e : StatEvent}
    (h : statStep s e = some u) : StatMove s e u := by
  cases e with
  | fopen t ok =>
      simp only [statStep] at h
      split at h
      · rename_i hpc
        cases ok with
        | true =>
            cases h
            exact .opened t hpc
        | false =>
            cases h
            exact .notOpened t hpc
      · cases h
  | fprintf =>
      simp only [statStep] at h
      split at h
      · rename_i t piece rest hpc
        cases h
        exact .printed t piece rest hpc
      · cases h
  | write kept dropped =>
      simp only [statStep] at h
      split at h
      · rename_i t rest content hpc htmp
        split at h
        · rename_i hle
          cases h
          exact .written kept dropped t rest content hpc htmp hle
        · cases h
      · cases h
  | fclose kept =>
      simp only [statStep] at h
      split at h
      · rename_i t content hpc htmp
        cases h
        exact .closed kept t content hpc htmp
      · cases h
  | rename ok =>
      simp only [statStep] at h
      split at h
      · rename_i t hpc
        cases ok with
        | true =>
            cases h
            exact .renamed t hpc
        | false =>
            cases h
            exact .notRenamed t hpc
      · cases h

theorem Writing.step {s u : StatFiles} {e : StatEvent} (h : Writing s)
    (hmove : StatMove s e u) : Writing u := by
  cases hmove with
  | opened t hpc =>
      refine ⟨fun _ => rfl, ?_, fun t' hpc' => by cases hpc'⟩
      intro t' rest hpc'
      cases hpc'
      refine ⟨by simp, [], rfl, fun _ => ?_⟩
      exact statPieces_flatten t
  | notOpened t hpc =>
      refine ⟨fun _ => rfl, ?_, ?_⟩
      · intro t' rest hpc'
        rw [hpc] at hpc'
        cases hpc'
      · intro t' hpc'
        rw [hpc] at hpc'
        cases hpc'
  | printed t piece rest hpc =>
      rcases h.printing t (piece :: rest) hpc with ⟨hcall, content, htmp, hsum⟩
      refine ⟨fun _ => h.before (by simp [hpc]), ?_,
        fun t' hpc' => by cases hpc'⟩
      intro t' rest' hpc'
      cases hpc'
      refine ⟨hcall, content, htmp, fun hok => ?_⟩
      rw [← hsum hok]
      simp
  | written kept dropped t rest content hpc htmp hle =>
      refine ⟨fun _ => h.before (by simp [hpc]), ?_, ?_⟩
      · intro t' rest' hpc'
        rcases h.printing t' rest' hpc' with ⟨hcall, content', htmp', hsum⟩
        rw [htmp, Option.some.injEq] at htmp'
        refine ⟨hcall, _, rfl, fun hok => ?_⟩
        simp only [Bool.or_eq_false_iff, decide_eq_false_iff_not] at hok
        have hzero : dropped = 0 := by omega
        rw [← hsum hok.left, ← htmp', hzero, Nat.add_zero]
        simp
      · intro t' hpc'
        rw [show s.pc = .printing t rest from hpc] at hpc'
        cases hpc'
  | closed kept t content hpc htmp =>
      rcases h.printing t [] hpc with ⟨hcall, content', htmp', hsum⟩
      rw [htmp, Option.some.injEq] at htmp'
      refine ⟨fun _ => h.before (by simp [hpc]),
        fun t' rest' hpc' => (by cases hpc'), ?_⟩
      intro t' hpc'
      cases hpc'
      refine ⟨hcall, _, rfl, fun hok => ?_⟩
      simp only [Bool.or_eq_false_iff, decide_eq_false_iff_not] at hok
      rw [← hsum hok.left, ← htmp', List.take_of_length_le (by omega)]
      simp
  | renamed t hpc =>
      exact ⟨fun hpc' => absurd rfl hpc',
        fun t' rest' hpc' => (by cases hpc'), fun t' hpc' => by cases hpc'⟩
  | notRenamed t hpc =>
      exact ⟨fun hpc' => absurd rfl hpc',
        fun t' rest' hpc' => (by cases hpc'), fun t' hpc' => by cases hpc'⟩

/-!
# The published file
-/

theorem Published.of_calls {s u : StatFiles} (h : Published s)
    (hstat : u.stat = s.stat) (hcalls : s.calls ⊆ u.calls)
    (hcompleted : u.completed = s.completed) : Published u := by
  rcases h with ⟨habsent, hnone⟩ | ⟨t, hcall, htext⟩
  · exact Or.inl ⟨hstat.trans habsent, hcompleted.trans hnone⟩
  · exact Or.inr ⟨t, hcalls hcall, hstat.trans htext⟩

theorem Complete.step {s u : StatFiles} {e : StatEvent} (h : Complete s)
    (hwriting : Writing s) (hmeet : RenamesWhole s e) (hmove : StatMove s e u) :
    Complete u := by
  rcases h with ⟨hpublished, hkept⟩
  cases hmove with
  | opened t hpc =>
      refine ⟨hpublished.of_calls rfl (List.subset_append_left _ _) rfl, ?_⟩
      intro hfailed
      cases hfailed
  | notOpened t hpc =>
      exact ⟨hpublished.of_calls rfl (List.subset_append_left _ _) rfl,
        fun _ => rfl⟩
  | printed t piece rest hpc =>
      exact ⟨hpublished.of_calls rfl (List.Subset.refl _) rfl, hkept⟩
  | written kept dropped t rest content hpc htmp hle =>
      exact ⟨hpublished.of_calls rfl (List.Subset.refl _) rfl,
        fun _ => (hwriting.before (by simp [hpc])).symm⟩
  | closed kept t content hpc htmp =>
      exact ⟨hpublished.of_calls rfl (List.Subset.refl _) rfl,
        fun _ => (hwriting.before (by simp [hpc])).symm⟩
  | renamed t hpc =>
      rcases hwriting.closed t hpc with ⟨hcall, content, htmp, hwhole⟩
      cases hfailed : s.failed with
      | true =>
          have hsame : s.tmp = s.stat := hmeet rfl ⟨t, hpc⟩ hfailed
          refine ⟨hpublished.of_calls hsame (List.Subset.refl _) ?_, ?_⟩
          · simp
          · intro _
            exact hsame.trans (hwriting.before (by simp [hpc])).symm
      | false =>
          refine ⟨Or.inr ⟨t, hcall, ?_⟩, fun hbad => ?_⟩
          · rw [← hwhole hfailed]
            exact htmp
          · cases hbad
  | notRenamed t hpc =>
      exact ⟨hpublished.of_calls rfl (List.Subset.refl _) rfl,
        fun _ => (hwriting.before (by simp [hpc])).symm⟩

theorem writing_reachable {evs : List StatEvent} {s : StatFiles}
    (hrun : runFrom statStep statStart evs = some s) : Writing s :=
  runFrom_history (R := fun _ s => Writing s) writing_start
    (fun _ _ _ _ _ ih hstep => ih.step (statStep_move hstep)) hrun

/-- The file is complete at every moment exactly when no rename moves a file that
is short of a text, unless that is the file already there. -/
theorem statFile_complete_iff (evs : List StatEvent) :
    Along statStep statStart evs Complete <->
      StepsMeet statStep statStart evs RenamesWhole := by
  constructor
  · intro hall pre e post s hevs hrun he hpc hfailed
    rcases hpc with ⟨t, hpc⟩
    rw [he] at hevs
    have hstep : statStep s (.rename true) = some
        { s with
          tmp := none
          stat := s.tmp
          pc := .idle
          completed :=
            if s.failed then s.completed else s.completed ++ [t] } := by
      simp [statStep, hpc]
    have hafter := hall (pre ++ [.rename true]) post _ (by simp [hevs])
      (runFrom_snoc.mpr ⟨s, hrun, hstep⟩)
    have hkept := hafter.right hfailed
    exact hkept.trans ((writing_reachable hrun).before (by simp [hpc]))
  · intro hmeet
    have hboth : Along statStep statStart evs
        (fun s => Writing s ∧ Complete s) := by
      refine along_invariant ?_ ?_ hmeet
      · intro s e u h hin hstep
        have hmove := statStep_move hstep
        exact ⟨h.left.step hmove, h.right.step h.left hin hmove⟩
      · refine ⟨writing_start, Or.inl ⟨rfl, rfl⟩, fun hfailed => ?_⟩
        cases hfailed
    intro pre post s hevs hrun
    exact (hboth pre post s hevs hrun).right

/-- A call whose characters all stay in the buffer until `fclose`, which finds the
disk full. -/
def fullDisk (t : Tables) : List StatEvent :=
  .fopen t true ::
    (List.replicate (statPieces t).length .fprintf ++ [.fclose 0, .rename true])

theorem printAll_run (s : StatFiles) (t : Tables) (rest : List CString)
    (hpc : s.pc = .printing t rest) :
    runFrom statStep s (List.replicate rest.length .fprintf) =
      some { s with
        buffer := s.buffer ++ rest.flatten
        pc := .printing t [] } := by
  induction rest generalizing s with
  | nil =>
      rw [List.flatten_nil, List.append_nil, ← hpc]
      rfl
  | cons piece rest ih =>
      have hstep : statStep s .fprintf = some
          { s with buffer := s.buffer ++ piece, pc := .printing t rest } := by
        simp [statStep, hpc]
      rw [List.length_cons, List.replicate_succ, runFrom, hstep]
      change runFrom statStep _ _ = _
      rw [ih _ rfl]
      simp

theorem fullDisk_run (t : Tables) :
    runFrom statStep statStart (fullDisk t) = some
      { statStart with
        stat := some []
        failed := decide (0 < (dumpStats t).length)
        calls := [t]
        completed :=
          if decide (0 < (dumpStats t).length) then [] else [t] } := by
  unfold fullDisk
  rw [runFrom_cons_some]
  refine ⟨_, rfl, ?_⟩
  rw [runFrom_append]
  refine ⟨_, printAll_run _ t (statPieces t) rfl, ?_⟩
  rw [statPieces_flatten]
  rfl

theorem not_complete_of_fullDisk {t : Tables} (ht : 0 < (dumpStats t).length) :
    ¬ Along statStep statStart (fullDisk t) Complete := by
  intro hall
  have hend := hall _ [] _ (List.append_nil _).symm (fullDisk_run t)
  have hkept := hend.right (by simpa using ht)
  cases hkept

theorem fullDisk_not_complete :
    ¬ Along statStep statStart (fullDisk (oneTest "MSG: ok".toList)) Complete :=
  not_complete_of_fullDisk (by decide +kernel)

end Stats
end Breakin
