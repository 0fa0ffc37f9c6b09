import Breakin.Foundation.FileTail
import Breakin.Scheduler.Lines

/-!
# The error log

`show_log` shows what was added to the error log since the last poll.  The log
belongs to the test scripts: it may not exist yet when the program starts, and the
first script that fails creates it.
-/

namespace Breakin
namespace Monitor

open Foundation
open Util
open Scheduler

structure FittingLine where
  body : List Char
  whole : '\n' ∉ body
  fits : body.length + 1 < BUFSIZ
deriving DecidableEq

/-- The error log, the saved offset `log_pos` and the calls of `log_error`.
`polled` and `appended` are the history: whether the program has polled, and the
lines appended since its first poll. -/
structure ErrorLog where
  file : Option (List Char)
  logPos : Option Nat
  shown : List CString
  polled : Bool
  appended : List FittingLine
deriving DecidableEq

inductive LogEvent where
  | create
  | append (line : FittingLine)
  | poll
deriving DecidableEq

def showLog (s : ErrorLog) : ErrorLog :=
  match s.file with
  | none => s
  | some content =>
      let result := tailFrom BUFSIZ s.logPos content
      { s with
        logPos := some result.2
        shown := s.shown ++ result.1.map fun buf => trim (cstr buf) }

def logStep (s : ErrorLog) : LogEvent -> Option ErrorLog
  | .create =>
      match s.file with
      | none => some { s with file := some [] }
      | some _ => none
  | .append line =>
      match s.file with
      | none => none
      | some content =>
          some
            { s with
              file := some (content ++ lineOf line.body)
              appended :=
                if s.polled then s.appended ++ [line] else s.appended }
  | .poll => some { showLog s with polled := true }

def logStart : ErrorLog where
  file := none
  logPos := none
  shown := []
  polled := false
  appended := []

def shownText (line : FittingLine) : CString :=
  lineText line.body

/-- After every poll the log window has had exactly the lines appended since the
first poll. -/
def ShownAfterPolls (evs : List LogEvent) : Prop :=
  forall pre post t, evs = pre ++ .poll :: post ->
    runFrom logStep logStart (pre ++ [.poll]) = some t ->
      t.shown = t.appended.map shownText

/-- The poll that finds the log for the first time finds it before anything is
appended that it should show. -/
def FindsInTime (s : ErrorLog) (e : LogEvent) : Prop :=
  e = .poll -> s.logPos = none -> s.file ≠ none -> s.appended = []

instance (s : ErrorLog) (e : LogEvent) : Decidable (FindsInTime s e) :=
  inferInstanceAs (Decidable (_ -> _ -> _ -> _))

/-!
# What each event does
-/

theorem logStep_create {s t : ErrorLog} (h : logStep s .create = some t) :
    s.file = none ∧ t = { s with file := some [] } := by
  unfold logStep at h
  cases hfile : s.file with
  | none =>
      rw [hfile] at h
      cases h
      exact ⟨rfl, rfl⟩
  | some content =>
      rw [hfile] at h
      cases h

theorem logStep_append {s t : ErrorLog} {line : FittingLine}
    (h : logStep s (.append line) = some t) :
    exists content, s.file = some content ∧
      t.file = some (content ++ lineOf line.body) ∧ t.logPos = s.logPos ∧
      t.shown = s.shown ∧ t.polled = s.polled ∧
      t.appended =
        if s.polled then s.appended ++ [line] else s.appended := by
  unfold logStep at h
  cases hfile : s.file with
  | none =>
      rw [hfile] at h
      cases h
  | some content =>
      rw [hfile] at h
      cases h
      exact ⟨content, rfl, rfl, rfl, rfl, rfl, rfl⟩

theorem showLog_frame (s : ErrorLog) :
    (showLog s).file = s.file ∧ (showLog s).appended = s.appended := by
  unfold showLog
  cases hfile : s.file with
  | none => exact ⟨hfile, rfl⟩
  | some content => exact ⟨rfl, rfl⟩

/-- The first poll that finds the log shows nothing of it. -/
theorem showLog_unopened {s : ErrorLog} {content : List Char}
    (hfile : s.file = some content) (hpos : s.logPos = none) :
    (showLog s).shown = s.shown ∧
      (showLog s).logPos = some content.length := by
  unfold showLog
  rw [hfile, hpos]
  change s.shown ++ (tailFrom BUFSIZ none content).1.map _ = _ ∧
    some (tailFrom BUFSIZ none content).2 = _
  rw [tailFrom_none, tailFrom_none_offset (by decide)]
  exact ⟨List.append_nil _, rfl⟩

theorem showLog_opened {s : ErrorLog} {old : List Char}
    {lines : List FittingLine}
    (hfile : s.file = some (old ++ streamOf (lines.map FittingLine.body)))
    (hpos : s.logPos = some old.length) :
    (showLog s).shown = s.shown ++ lines.map shownText ∧
      (showLog s).logPos =
        some (old ++ streamOf (lines.map FittingLine.body)).length := by
  have hlines : forall b, b ∈ lines.map FittingLine.body ->
      '\n' ∉ b ∧ b.length + 1 < BUFSIZ := by
    intro b hb
    rcases List.mem_map.mp hb with ⟨line, _, heq⟩
    rw [← heq]
    exact ⟨line.whole, line.fits⟩
  have hreads := tailFrom_fitting (n := old.length) (by decide) hlines
    List.drop_left
  unfold showLog
  rw [hfile, hpos]
  change s.shown ++ (tailFrom BUFSIZ (some old.length) _).1.map _ = _ ∧
    some (tailFrom BUFSIZ (some old.length) _).2 = _
  rw [hreads, tailFrom_some_offset (by decide)]
  constructor
  · rw [List.map_map, List.map_map]
    rfl
  · rw [Nat.max_eq_right]
    simp

/-!
# The saved offset
-/

structure LogWindow (s : ErrorLog) : Prop where
  unopened : s.logPos = none -> s.shown = []
  unpolled : s.polled = false -> s.logPos = none ∧ s.appended = []
  absent : s.file = none -> s.logPos = none ∧ s.appended = []

theorem logWindow_start : LogWindow logStart :=
  ⟨fun _ => rfl, fun _ => ⟨rfl, rfl⟩, fun _ => ⟨rfl, rfl⟩⟩

theorem LogWindow.step {s t : ErrorLog} {e : LogEvent} (h : LogWindow s)
    (hstep : logStep s e = some t) : LogWindow t := by
  cases e with
  | create =>
      rcases logStep_create hstep with ⟨_, ht⟩
      rw [ht]
      exact ⟨h.unopened, h.unpolled, fun habsent => by cases habsent⟩
  | append line =>
      rcases logStep_append hstep with
        ⟨content, _, hfile, hpos, hshown, hpolled, happended⟩
      refine ⟨?_, ?_, ?_⟩
      · rw [hpos, hshown]
        exact h.unopened
      · rw [hpolled, hpos, happended]
        intro hfirst
        rw [hfirst]
        exact h.unpolled hfirst
      · rw [hfile]
        intro habsent
        cases habsent
  | poll =>
      cases hstep
      refine ⟨?_, fun hpolled => (by cases hpolled), ?_⟩
      · change (showLog s).logPos = none -> (showLog s).shown = []
        cases hfile : s.file with
        | none =>
            unfold showLog
            rw [hfile]
            exact h.unopened
        | some content =>
            unfold showLog
            rw [hfile]
            intro hpos
            cases hpos
      · intro habsent
        change (showLog s).file = none at habsent
        rw [(showLog_frame s).left] at habsent
        change (showLog s).logPos = none ∧ (showLog s).appended = []
        unfold showLog
        rw [habsent]
        exact h.absent habsent

theorem logWindow_reachable {evs : List LogEvent} {t : ErrorLog}
    (hrun : runFrom logStep logStart evs = some t) : LogWindow t :=
  runFrom_history (R := fun _ t => LogWindow t) logWindow_start
    (fun _ _ _ _ _ ih hstep => ih.step hstep) hrun

def Follows (s : ErrorLog) : Prop :=
  forall n, s.logPos = some n ->
    exists (old : List Char) (new : List FittingLine),
      s.file = some (old ++ streamOf (new.map FittingLine.body)) ∧
        n = old.length ∧
        s.shown ++ new.map shownText = s.appended.map shownText

theorem Follows.poll {s : ErrorLog} (h : Follows s) (hwindow : LogWindow s)
    (hmeet : FindsInTime s .poll) :
    (showLog s).shown = s.appended.map shownText ∧ Follows (showLog s) := by
  cases hfile : s.file with
  | none =>
      have hsame : showLog s = s := by
        unfold showLog
        rw [hfile]
      rcases hwindow.absent hfile with ⟨hpos, happended⟩
      rw [hsame, hwindow.unopened hpos, happended]
      exact ⟨rfl, h⟩
  | some content =>
      cases hpos : s.logPos with
      | none =>
          have happended : s.appended = [] :=
            hmeet rfl hpos (by rw [hfile]; simp)
          rcases showLog_unopened hfile hpos with ⟨hshown, hnext⟩
          rw [hwindow.unopened hpos] at hshown
          rw [happended]
          refine ⟨hshown, ?_⟩
          intro n hn
          exists content
          exists []
          rw [(showLog_frame s).left, (showLog_frame s).right, hshown,
            happended, hfile]
          rw [hnext] at hn
          cases hn
          exact ⟨by simp [streamOf], rfl, rfl⟩
      | some n =>
          rcases h n hpos with ⟨old, new, hcontent, hn, hshown⟩
          rw [hn] at hpos
          rcases showLog_opened hcontent hpos with ⟨hall, hnext⟩
          rw [hshown] at hall
          refine ⟨hall, ?_⟩
          intro m hm
          exists old ++ streamOf (new.map FittingLine.body)
          exists []
          rw [(showLog_frame s).left, (showLog_frame s).right, hall, hcontent]
          rw [hnext] at hm
          cases hm
          exact ⟨by simp [streamOf], rfl, by simp⟩

theorem Follows.step {s t : ErrorLog} {e : LogEvent} (h : Follows s)
    (hwindow : LogWindow s) (hmeet : FindsInTime s e)
    (hstep : logStep s e = some t) : Follows t := by
  cases e with
  | create =>
      rcases logStep_create hstep with ⟨habsent, ht⟩
      rw [ht]
      intro n hn
      change s.logPos = some n at hn
      rw [(hwindow.absent habsent).left] at hn
      cases hn
  | append line =>
      rcases logStep_append hstep with
        ⟨content, hold, hfile, hpos, hshown, _, happended⟩
      intro n hn
      rw [hpos] at hn
      rcases h n hn with ⟨old, new, hcontent, hlength, hsplit⟩
      have hpolled : s.polled = true := by
        cases hfirst : s.polled with
        | true => rfl
        | false =>
            rw [(hwindow.unpolled hfirst).left] at hn
            cases hn
      rw [hold, Option.some.injEq] at hcontent
      exists old
      exists new ++ [line]
      refine ⟨?_, hlength, ?_⟩
      · rw [hfile, hcontent]
        simp [streamOf]
      · rw [hshown, happended, hpolled, List.map_append, ← List.append_assoc,
          hsplit]
        simp
  | poll =>
      cases hstep
      exact (h.poll hwindow hmeet).right

/-!
# The log is shown completely
-/

theorem follows_reachable {evs : List LogEvent} {t : ErrorLog}
    (hmeet : StepsMeet logStep logStart evs FindsInTime)
    (hrun : runFrom logStep logStart evs = some t) : Follows t := by
  have hboth : LogWindow t ∧ Follows t := by
    refine runFrom_invariant (P := fun s => LogWindow s ∧ Follows s)
      ?_ ?_ hmeet hrun
    · intro s e u h hin hstep
      exact ⟨h.left.step hstep, h.right.step h.left hin hstep⟩
    · exact ⟨logWindow_start, fun n hn => by cases hn⟩
  exact hboth.right

/-- Complete exactly when the log is found before its first line since the first
poll. -/
theorem showLog_complete_iff (evs : List LogEvent) :
    ShownAfterPolls evs <->
      StepsMeet logStep logStart evs FindsInTime := by
  constructor
  · intro hshown pre e post s hevs hrun hpoll hpos hfile
    rw [hpoll] at hevs
    rcases Option.ne_none_iff_exists'.mp hfile with ⟨content, hcontent⟩
    have hafter := hshown pre post { showLog s with polled := true } hevs
      (runFrom_snoc.mpr ⟨s, hrun, rfl⟩)
    change (showLog s).shown = (showLog s).appended.map shownText at hafter
    rw [(showLog_unopened hcontent hpos).left, (showLog_frame s).right,
      (logWindow_reachable hrun).unopened hpos] at hafter
    exact List.map_eq_nil_iff.mp hafter.symm
  · intro hmeet pre post t hevs hrun
    rw [hevs] at hmeet
    rcases runFrom_snoc.mp hrun with ⟨s, hpre, hstep⟩
    have hbefore := hmeet.of_append
    cases hstep
    change (showLog s).shown = (showLog s).appended.map shownText
    rw [(showLog_frame s).right]
    exact ((follows_reachable hbefore hpre).poll (logWindow_reachable hpre)
      (hmeet pre .poll post s rfl hpre)).left

def failedLine : FittingLine where
  body := "mpirun noticed".toList
  whole := by decide
  fits := by decide

/-- The test creates the log between two polls: its line is never shown. -/
theorem failedLine_not_shown :
    ¬ ShownAfterPolls [.poll, .create, .append failedLine, .poll] := by
  intro hshown
  have h := hshown [.poll, .create, .append failedLine] []
    { file := some (lineOf failedLine.body)
      logPos := some (lineOf failedLine.body).length
      shown := []
      polled := true
      appended := [failedLine] } rfl (by decide)
  cases h

end Monitor
end Breakin
