import Breakin.Foundation.LineReader
import Breakin.Scheduler.Launches

/-!
# Messages and the timing of writes

The poll loop classifies what each `fgets` call returns, and keeps nothing of a
line whose end has not arrived.  A script's output has the meaning of its lines
exactly when no call finds a line without its end, and when every error line fits
the buffer that `snprintf` prefixes it in.
-/

namespace Breakin
namespace Scheduler

open Foundation
open Util

/-- What the poll loop makes of the reads of a pipe, for the script `name`. -/
def updates (name : CString) (p : Pipe) : List LineUpdate :=
  p.reads.map (pollLine name)

def lineText (body : List Char) : CString :=
  trim (cstr (lineOf body))

def IsMessage (text : CString) : Prop :=
  startsWith msgTag text = true ∧ 5 < text.length

instance (text : CString) : Decidable (IsMessage text) :=
  inferInstanceAs (Decidable (_ ∧ _))

/-- The update a full line stands for: a message, or an error under the script's
name. -/
def lineUpdate (name : CString) (body : List Char) : LineUpdate :=
  if IsMessage (lineText body) then
    { lastMsg := (lineText body).drop 5, logged := none }
  else
    { lastMsg := lineText body
      logged := some (name ++ " - ".toList ++ lineText body) }

def FitsBuffer (name : CString) (body : List Char) : Prop :=
  IsMessage (lineText body) ∨
    (name ++ " - ".toList ++ lineText body).length < BUFSIZ

instance (name : CString) (body : List Char) :
    Decidable (FitsBuffer name body) :=
  inferInstanceAs (Decidable (_ ∨ _))

/-!
# The poll loop delivers what it reads
-/

/-- One turn of the drain loop of slot `i` takes one `fgets` result off the
slot's pipe and makes its update, or ends the loop. -/
theorem RootStep.delivers {v v' : View} {i : Nat} {script : BurninScript}
    {fp : Nat} {pipe : Pipe} (h : RootStep v (.fgets 0 0) v')
    (hpc : mainPC v.mem = some (.drain i))
    (hscript : v.mem.scripts[i]? = some script)
    (hfp : script.fpStdout = some fp) (hpipe : v.pipes[fp]? = some pipe) :
    (pipe.unread = [] ∧ v'.pipes = v.pipes ∧
      v'.mem.scripts = v.mem.scripts ∧ v'.mem.log = v.mem.log) ∨
    exists data pipe', pipe.fgets BUFSIZ = some (data, pipe') ∧
      v'.pipes = v.pipes.set fp pipe' ∧
      v'.mem.scripts[i]? = some
        { script with lastMsg := (pollLine script.name data).lastMsg } ∧
      v'.mem.log = v.mem.log ++ (pollLine script.name data).logCalls := by
  have hplace : forall {pc : PC} {k : Nat} {pipe0 : Pipe},
      v.mem.threads[0]? = some pc -> drainArg v.mem pc = some k ->
      v.pipes[k]? = some pipe0 -> pc = .drain i ∧ k = fp ∧ pipe0 = pipe := by
    intro pc k pipe0 hpc0 harg hpipe0
    have heq : pc = .drain i := Option.some.inj (hpc0.symm.trans hpc)
    subst heq
    simp only [drainArg, hscript] at harg
    rw [hfp] at harg
    cases harg
    rw [hpipe] at hpipe0
    cases hpipe0
    exact ⟨rfl, rfl, rfl⟩
  cases h with
  | foreign extra hf => exact absurd rfl hf
  | drained hpc0 harg hpipe0 hempty hdrained =>
      rcases hplace hpc0 harg hpipe0 with ⟨hdrain, _, hp⟩
      subst hdrain
      subst hp
      simp only [Scheduler.drained, hscript] at hdrained
      cases hdrained
      exact Or.inl ⟨hempty, rfl, rfl, rfl⟩
  | line hpc0 harg hpipe0 hline hdrained =>
      rename_i k pc pipe0 pipe' data m
      rcases hplace hpc0 harg hpipe0 with ⟨hdrain, hk, hp⟩
      subst hdrain
      subst hk
      subst hp
      simp only [Scheduler.drained, hscript] at hdrained
      cases hdrained
      right
      refine ⟨data, pipe', hline, rfl, ?_, rfl⟩
      simp [hscript, deliver]

/-!
# One line
-/

theorem lineText_length_le (body : List Char) :
    (lineText body).length ≤ body.length + 1 := by
  have htrim := trim_length_le (cstr (lineOf body))
  have hcstr : (cstr (lineOf body)).length ≤ (lineOf body).length :=
    (List.takeWhile_prefix _).length_le
  have hline : (lineOf body).length = body.length + 1 := by simp [lineOf]
  exact Nat.le_trans htrim (hline ▸ hcstr)

/-- The poll loop makes the update of a full line exactly when the text it logs
is not cut. -/
theorem pollLine_lineOf_iff {name : CString} {body : List Char}
    (hlen : body.length + 1 < BUFSIZ) :
    pollLine name (lineOf body) = lineUpdate name body <->
      FitsBuffer name body := by
  have htext := lineText_length_le body
  have hkeep : (lineText body).take BUFSIZ = lineText body :=
    List.take_of_length_le (by omega)
  have hdrop : ((lineText body).drop 5).take BUFSIZ = (lineText body).drop 5 :=
    List.take_of_length_le (by rw [List.length_drop]; omega)
  have hcond : (startsWith msgTag (trim (cstr (lineOf body))) &&
      decide (5 < (trim (cstr (lineOf body))).length)) = true <->
        IsMessage (lineText body) := by
    simp [IsMessage, lineText]
  unfold lineUpdate FitsBuffer
  by_cases hmsg : IsMessage (lineText body)
  · have hpoll : pollLine name (lineOf body) =
        { lastMsg := ((lineText body).drop 5).take BUFSIZ, logged := none } :=
      if_pos (hcond.mpr hmsg)
    rw [hpoll, hdrop]
    simp [hmsg]
  · have hpoll : pollLine name (lineOf body) =
        { lastMsg := (lineText body).take BUFSIZ
          logged := some (snprintf BUFSIZ
            (name ++ " - ".toList ++ lineText body)) } :=
      if_neg fun htest => hmsg (hcond.mp htest)
    rw [hpoll, hkeep, if_neg hmsg, ← snprintf_eq_self_iff (by decide)]
    simp [hmsg]

/-!
# Every schedule of writes and reads
-/

/-- For lines that fit `fgets`, in every schedule that reads the whole stream: the
updates are those of the lines exactly when no read is a fragment and no logged
text is cut. -/
theorem updates_eq_lines_iff {name : CString} {bodies : List (List Char)}
    {evs : List PipeEvent} {p : Pipe}
    (hbodies : forall b, b ∈ bodies -> '\n' ∉ b ∧ b.length + 1 < BUFSIZ)
    (hrun : runFrom (Pipe.event BUFSIZ) Pipe.empty evs = some p)
    (hwritten : p.written = streamOf bodies) (hread : p.unread = []) :
    updates name p = bodies.map (lineUpdate name) <->
      StepsMeet (Pipe.event BUFSIZ) Pipe.empty evs FindsLine ∧
        forall b, b ∈ bodies -> FitsBuffer name b := by
  have hlines : StepsMeet (Pipe.event BUFSIZ) Pipe.empty evs FindsLine ->
      (updates name p = bodies.map (lineUpdate name) <->
        forall b, b ∈ bodies -> FitsBuffer name b) := by
    intro hmeet
    have hreads := reads_eq_lines hbodies hrun hwritten hread hmeet
    unfold updates
    rw [hreads, List.map_map, List.map_inj_left]
    constructor
    · intro heq b hb
      exact (pollLine_lineOf_iff (hbodies b hb).right).mp (heq b hb)
    · intro hfits b hb
      exact (pollLine_lineOf_iff (hbodies b hb).right).mpr (hfits b hb)
  constructor
  · intro heq
    have hlength : p.reads.length = bodies.length := by
      have hmapped := congrArg List.length heq
      simpa [updates] using hmapped
    have hmeet := findsLine_of_length (fun b hb => (hbodies b hb).left) hrun
      hwritten hread hlength
    exact ⟨hmeet, (hlines hmeet).mp heq⟩
  · intro h
    exact (hlines h.left).mpr h.right

def twoLines : List PipeEvent :=
  [.write "MSG: 1 of 2\n".toList, .fgets, .fgets, .write "disk ".toList,
    .write "failed\n".toList, .fgets, .fgets]

theorem updates_twoLines :
    exists p, runFrom (Pipe.event BUFSIZ) Pipe.empty twoLines = some p ∧
      (updates "hpl".toList p =
          ["MSG: 1 of 2".toList, "disk failed".toList].map (lineUpdate "hpl".toList) <->
        StepsMeet (Pipe.event BUFSIZ) Pipe.empty twoLines FindsLine ∧
          forall b, b ∈ ["MSG: 1 of 2".toList, "disk failed".toList] ->
            FitsBuffer "hpl".toList b) ∧
      StepsMeet (Pipe.event BUFSIZ) Pipe.empty twoLines FindsLine :=
  ⟨_, rfl, updates_eq_lines_iff (by decide) rfl rfl rfl,
    stepsMeet_of_check (by decide)⟩

def passedLine : List Char := "MSG: Passed".toList

def wholeLine : List PipeEvent :=
  [.write "MSG: Passed\n".toList, .fgets, .fgets]

/-- The line of `wholeLine`, in two writes with a poll pass in between. -/
def splitLine : List PipeEvent :=
  [.write "MSG: Pa".toList, .fgets, .fgets, .write "ssed\n".toList, .fgets,
    .fgets]

/-- The two schedules of one stream differ, and the second logs an error. -/
theorem splitLine_updates :
    exists p q, runFrom (Pipe.event BUFSIZ) Pipe.empty wholeLine = some p ∧
      runFrom (Pipe.event BUFSIZ) Pipe.empty splitLine = some q ∧
        p.written = streamOf [passedLine] ∧
          q.written = streamOf [passedLine] ∧ p.unread = [] ∧ q.unread = [] ∧
            updates "hpl".toList p =
              [{ lastMsg := "Passed".toList, logged := none }] ∧
            updates "hpl".toList q =
              [{ lastMsg := "Pa".toList, logged := none },
                { lastMsg := "ssed".toList
                  logged := some "hpl - ssed".toList }] ∧
            updates "hpl".toList q ≠ updates "hpl".toList p :=
  ⟨_, _, rfl, rfl, rfl, rfl, rfl, rfl, by decide, by decide, by decide⟩

end Scheduler
end Breakin
