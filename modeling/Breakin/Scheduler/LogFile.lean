import Breakin.Foundation.FileTail
import Breakin.Foundation.Numbers
import Breakin.Foundation.Words
import Breakin.Scheduler.Identity
import Breakin.Scheduler.Lines

/-!
# The log files

`log_message` and `log_error` write a record into `LOG_FILE`, into `LOG_DEV_FILE` and
to the serial port, with the time since the start in front of the text.  What is read
back from such a file is what was logged, in order.
-/

namespace Breakin
namespace Scheduler

open Foundation
open Util

/-- `%02d` -/
def twoDigits (n : Nat) : CString :=
  List.leftpad 2 '0' (decimal n)

/-- `running_time`, for the seconds since the start. -/
def runningTime (runTime : Nat) : CString :=
  let hours := runTime / 3600
  let runTime := runTime % 3600
  twoDigits hours ++ 'h' :: ' ' :: (twoDigits (runTime / 60) ++ 'm' :: ' ' ::
    (twoDigits (runTime % 60) ++ ['s']))

/-- What a call writes to `log_file`. -/
def logFileText (runTime : Nat) : LogCall -> List Char
  | .message text =>
      "MSG ".toList ++ runningTime runTime ++ ' ' :: text ++ "\n\n".toList
  | .error text => "ERR ".toList ++ runningTime runTime ++ ' ' :: text ++ "\n".toList
  | .print _ => []

/-- What some calls, each at its time, write to `log_file`. -/
def logFileTexts (calls : List (Nat × LogCall)) : List Char :=
  (calls.map fun c => logFileText c.1 c.2).flatten

/-!
# Reading a file
-/

inductive RecordKind where
  | message
  | error
deriving DecidableEq

structure LogRecord where
  kind : RecordKind
  time : Nat
  text : CString
deriving DecidableEq

def readUnit (unit : Char) (s : List Char) : Option (Nat × List Char) :=
  match s.dropWhile Char.isDigit with
  | c :: ' ' :: rest =>
      if c = unit then some (digitsValue (s.takeWhile Char.isDigit), rest) else none
  | _ => none

def readTime (s : List Char) : Option (Nat × List Char) := do
  let hours ← readUnit 'h' s
  let mins ← readUnit 'm' hours.2
  let secs ← readUnit 's' mins.2
  some (3600 * hours.1 + 60 * mins.1 + secs.1, secs.2)

def readKind (tag : List Char) : Option RecordKind :=
  if tag = "MSG ".toList then some .message
  else if tag = "ERR ".toList then some .error
  else none

def readRecord (line : List Char) : Option LogRecord := do
  let kind ← readKind (line.take 4)
  let time ← readTime (line.drop 4)
  some { kind := kind, time := time.1, text := time.2 }

def recordsIn (content : List Char) : List LogRecord :=
  (textLines content).filterMap fun line =>
    readRecord (line.takeWhile fun c => c != '\n')

def chomp (text : CString) : CString :=
  text.rdropWhile fun c => c == '\n'

def LogCall.record (runTime : Nat) : LogCall -> Option LogRecord
  | .message text => some { kind := .message, time := runTime, text := chomp text }
  | .error text => some { kind := .error, time := runTime, text := chomp text }
  | .print _ => none

def OneLine (text : CString) : Prop :=
  '\n' ∉ chomp text

def LogCall.OneLine : LogCall -> Prop
  | .message text => Scheduler.OneLine text
  | .error text => Scheduler.OneLine text
  | .print _ => True

/-!
# The time
-/

theorem twoDigits_isDigit {n : Nat} {c : Char} (h : c ∈ twoDigits n) :
    c.isDigit = true := by
  rcases List.mem_append.mp h with hzero | hdecimal
  · rw [List.eq_of_mem_replicate hzero]
    decide
  · exact decimal_isDigit hdecimal

theorem readUnit_twoDigits (n : Nat) {unit : Char} (hunit : unit.isDigit = false)
    (rest : List Char) :
    readUnit unit (twoDigits n ++ unit :: ' ' :: rest) = some (n, rest) := by
  have hdigits : forall c, c ∈ twoDigits n -> c.isDigit = true :=
    fun _ => twoDigits_isDigit
  have hvalue : digitsValue (twoDigits n) = n := by
    have hpad : forall k (s : CString),
        digitsValue (List.replicate k '0' ++ s) = digitsValue s := by
      intro k s
      induction k with
      | zero => rfl
      | succ k ih => exact ih
    rw [← digitsValue_decimal n]
    unfold twoDigits List.leftpad
    rw [hpad, digitsValue_decimal]
  have htake : (twoDigits n ++ unit :: ' ' :: rest).takeWhile Char.isDigit =
      twoDigits n := by
    rw [List.takeWhile_append_of_pos hdigits,
      List.takeWhile_cons_of_neg (by simp [hunit]), List.append_nil]
  have hdrop : (twoDigits n ++ unit :: ' ' :: rest).dropWhile Char.isDigit =
      unit :: ' ' :: rest := by
    rw [List.dropWhile_append_of_pos hdigits,
      List.dropWhile_cons_of_neg (by simp [hunit])]
  unfold readUnit
  rw [hdrop, htake, hvalue]
  exact if_pos rfl

theorem readTime_runningTime (runTime : Nat) (text : CString) :
    readTime (runningTime runTime ++ ' ' :: text) = some (runTime, text) := by
  have hshape : runningTime runTime ++ ' ' :: text =
      twoDigits (runTime / 3600) ++ 'h' :: ' ' ::
        (twoDigits (runTime % 3600 / 60) ++ 'm' :: ' ' ::
          (twoDigits (runTime % 3600 % 60) ++ 's' :: ' ' :: text)) := by
    simp [runningTime]
  have hsum : 3600 * (runTime / 3600) + 60 * (runTime % 3600 / 60) +
      runTime % 3600 % 60 = runTime := by
    have hhours := Nat.div_add_mod runTime 3600
    have hmins := Nat.div_add_mod (runTime % 3600) 60
    rw [Nat.add_assoc, hmins, hhours]
  unfold readTime
  rw [hshape, readUnit_twoDigits _ (by decide)]
  simp only [Option.bind_eq_bind, Option.bind_some]
  rw [readUnit_twoDigits _ (by decide)]
  simp only [Option.bind_some]
  rw [readUnit_twoDigits _ (by decide)]
  simp only [Option.bind_some]
  rw [hsum]

/-!
# One record
-/

theorem recordsIn_line {body : List Char} (h : '\n' ∉ body) (rest : List Char) :
    recordsIn (body ++ '\n' :: rest) = (readRecord body).toList ++ recordsIn rest := by
  have hline : body ++ '\n' :: rest = lineOf body ++ rest := by
    unfold lineOf
    rw [List.append_assoc]
    rfl
  have hbody : (lineOf body).takeWhile (fun c => c != '\n') = body :=
    (takeWhile_ne_append h []).left
  unfold recordsIn
  rw [hline, textLines_line h, List.filterMap_cons, hbody]
  cases readRecord body with
  | none => rfl
  | some record => rfl

theorem recordsIn_newlines (k : Nat) (rest : List Char) :
    recordsIn (List.replicate k '\n' ++ rest) = recordsIn rest := by
  induction k with
  | zero => rfl
  | succ k ih =>
      have hempty := @recordsIn_line [] List.not_mem_nil (List.replicate k '\n' ++ rest)
      rw [List.replicate_succ, List.cons_append]
      exact hempty.trans ih

theorem chomp_append (text : CString) :
    exists k, text = chomp text ++ List.replicate k '\n' := by
  have hsplit : text.rdropWhile (fun c => c == '\n') ++
      text.rtakeWhile (fun c => c == '\n') = text := List.rdropWhile_append_rtakeWhile
  refine ⟨(text.rtakeWhile fun c => c == '\n').length, ?_⟩
  have hall : text.rtakeWhile (fun c => c == '\n') =
      List.replicate (text.rtakeWhile fun c => c == '\n').length '\n' := by
    rw [List.eq_replicate_iff]
    refine ⟨rfl, fun c hc => ?_⟩
    simpa using List.mem_rtakeWhile_imp hc
  unfold chomp
  rw [← hall, hsplit]

theorem runningTime_noNewline (runTime : Nat) : '\n' ∉ runningTime runTime := by
  have hdigits : forall n, '\n' ∉ twoDigits n :=
    fun _ hin => absurd (twoDigits_isDigit hin) (by decide)
  simp [runningTime, hdigits]

theorem recordsIn_text {front : List Char} (hfront : '\n' ∉ front) {text : CString}
    (h : OneLine text) (k : Nat) (rest : List Char) :
    recordsIn (front ++ text ++ List.replicate (k + 1) '\n' ++ rest) =
      (readRecord (front ++ chomp text)).toList ++ recordsIn rest := by
  rcases chomp_append text with ⟨j, hj⟩
  -- the line, and all the line ends behind it
  have hshape : front ++ text ++ List.replicate (k + 1) '\n' ++ rest =
      (front ++ chomp text) ++ '\n' :: (List.replicate (j + k) '\n' ++ rest) := by
    have hends : List.replicate j '\n' ++ List.replicate (k + 1) '\n' =
        '\n' :: List.replicate (j + k) '\n' := by
      rw [List.replicate_append_replicate, ← Nat.add_assoc, List.replicate_succ]
    conv => lhs; rw [hj]
    simp only [List.append_assoc]
    rw [← List.append_assoc (List.replicate j '\n'), hends]
    rfl
  have hbody : '\n' ∉ front ++ chomp text := by
    rw [List.mem_append, not_or]
    exact ⟨hfront, h⟩
  rw [hshape, recordsIn_line hbody, recordsIn_newlines]

theorem readRecord_tagged {tag : List Char} {kind : RecordKind}
    (htag : readKind tag = some kind) (hlength : tag.length = 4) (runTime : Nat)
    (text : CString) :
    readRecord (tag ++ (runningTime runTime ++ ' ' :: text)) =
      some { kind := kind, time := runTime, text := text } := by
  unfold readRecord
  rw [← hlength, List.take_left, List.drop_left, htag, readTime_runningTime]
  rfl

theorem tagged_noNewline {tag : List Char} (hend : '\n' ∉ tag) (runTime : Nat) :
    '\n' ∉ tag ++ runningTime runTime ++ [' '] := by
  have htime := runningTime_noNewline runTime
  simp [hend, htime]

theorem recordsIn_record {tag : List Char} {kind : RecordKind}
    (htag : readKind tag = some kind) (hlength : tag.length = 4)
    (hend : '\n' ∉ tag) {text : CString} (h : OneLine text) (runTime k : Nat)
    (rest : List Char) :
    recordsIn (tag ++ runningTime runTime ++ ' ' :: text ++
        List.replicate (k + 1) '\n' ++ rest) =
      { kind := kind, time := runTime, text := chomp text } :: recordsIn rest := by
  have hfront : forall text : CString, tag ++ runningTime runTime ++ ' ' :: text =
      tag ++ runningTime runTime ++ [' '] ++ text := by
    intro text
    rw [List.append_assoc _ [' '], List.singleton_append]
  rw [hfront, recordsIn_text (tagged_noNewline hend runTime) h, ← hfront,
    List.append_assoc tag, readRecord_tagged htag hlength]
  rfl

/-!
# A whole file
-/

theorem recordsIn_append {front : List Char} (h : lineStart front = true)
    (rest : List Char) : recordsIn (front ++ rest) = recordsIn front ++ recordsIn rest := by
  unfold recordsIn
  rw [textLines_append h, List.filterMap_append]

/-- What is written for a call is read as its record. -/
theorem recordsIn_logFileText {call : LogCall} (h : call.OneLine) (runTime : Nat)
    (rest : List Char) :
    recordsIn (logFileText runTime call ++ rest) =
      (call.record runTime).toList ++ recordsIn rest := by
  cases call with
  | message text => exact recordsIn_record rfl rfl (by decide) h runTime 1 rest
  | error text => exact recordsIn_record rfl rfl (by decide) h runTime 0 rest
  | print text => rfl

theorem recordsIn_logFileTexts {calls : List (Nat × LogCall)}
    (h : forall c, c ∈ calls -> c.2.OneLine) :
    recordsIn (logFileTexts calls) = calls.filterMap fun c => c.2.record c.1 := by
  induction calls with
  | nil => rfl
  | cons c calls ih =>
      rw [List.forall_mem_cons] at h
      have hsplit : logFileTexts (c :: calls) =
          logFileText c.1 c.2 ++ logFileTexts calls := rfl
      rw [hsplit, recordsIn_logFileText h.left, ih h.right, List.filterMap_cons]
      cases c.2.record c.1 with
      | none => rfl
      | some record => rfl

/-!
# What the scheduler logs
-/

def TableLines (m : Memory) : Prop :=
  forall script, script ∈ m.scripts -> '\n' ∉ script.name ∧ '\n' ∉ script.lastMsg

structure LogsLines (m m' : Memory) : Prop where
  log : exists calls, m'.log = m.log ++ calls ∧
    forall call, call ∈ calls -> LogCall.OneLine call
  table : TableLines m -> TableLines m'

theorem LogsLines.say {m m' : Memory} {calls : List LogCall}
    (hlog : m'.log = m.log ++ calls) (hscripts : m'.scripts = m.scripts)
    (hcalls : forall call, call ∈ calls -> LogCall.OneLine call) : LogsLines m m' where
  log := ⟨calls, hlog, hcalls⟩
  table := by
    intro htable
    unfold TableLines
    rw [hscripts]
    exact htable

theorem LogsLines.same {m m' : Memory} (hlog : m'.log = m.log)
    (hscripts : m'.scripts = m.scripts) : LogsLines m m' := by
  have hnone : forall call : LogCall, call ∈ ([] : List LogCall) -> call.OneLine := by
    intro call hcall
    cases hcall
  refine LogsLines.say ?_ hscripts hnone
  rw [hlog, List.append_nil]

theorem LogsLines.update {m m' : Memory} {calls : List LogCall} {i : Nat}
    {f : BurninScript -> BurninScript} (hlog : m'.log = m.log ++ calls)
    (hscripts : m'.scripts = m.scripts.modify i f)
    (hcalls : forall call, call ∈ calls -> LogCall.OneLine call)
    (hname : forall script, (f script).name = script.name)
    (hmsg : forall script, '\n' ∉ script.lastMsg -> '\n' ∉ (f script).lastMsg) :
    LogsLines m m' where
  log := ⟨calls, hlog, hcalls⟩
  table := by
    intro htable script hscript
    rw [hscripts] at hscript
    rcases List.getElem?_of_mem hscript with ⟨j, hj⟩
    rw [List.getElem?_modify] at hj
    rcases Option.map_eq_some_iff.mp hj with ⟨old, hold, heq⟩
    rcases htable old (List.mem_of_getElem? hold) with ⟨holdName, holdMsg⟩
    rw [← heq]
    split
    · exact ⟨(hname old).symm ▸ holdName, hmsg old holdMsg⟩
    · exact ⟨holdName, holdMsg⟩

theorem LogsLines.trans {m m' m'' : Memory} (h : LogsLines m m')
    (h' : LogsLines m' m'') : LogsLines m m'' where
  log := by
    rcases h.log with ⟨calls, hlog, hcalls⟩
    rcases h'.log with ⟨calls', hlog', hcalls'⟩
    refine ⟨calls ++ calls', ?_, List.forall_mem_append.mpr ⟨hcalls, hcalls'⟩⟩
    rw [hlog', hlog, List.append_assoc]
  table := fun htable => h'.table (h.table htable)

theorem oneLine_of_noNewline {text : CString} (h : '\n' ∉ text) : OneLine text :=
  fun hin => h ((List.rdropWhile_prefix _ text).subset hin)

def LineShaped (line : List Char) : Prop :=
  exists body, '\n' ∉ body ∧ (line = body ∨ line = lineOf body)

theorem LineShaped.front {line front : List Char} (h : LineShaped line)
    (hfront : front <+: line) : LineShaped front := by
  rcases h with ⟨body, hbody, rfl | rfl⟩
  · exact ⟨front, fun hin => hbody (hfront.subset hin), Or.inl rfl⟩
  · rcases List.prefix_concat_iff.mp hfront with hwhole | hpart
    · exact ⟨body, hbody, Or.inr hwhole⟩
    · exact ⟨front, fun hin => hbody (hpart.subset hin), Or.inl rfl⟩

theorem not_mem_cons {c : Char} {body : List Char} (hc : ¬ c = '\n')
    (hbody : '\n' ∉ body) : '\n' ∉ c :: body := by
  rw [List.mem_cons, not_or]
  exact ⟨Ne.symm hc, hbody⟩

theorem firstLine_shaped (avail : List Char) : LineShaped (firstLine avail) := by
  induction avail with
  | nil => exact ⟨[], List.not_mem_nil, Or.inl rfl⟩
  | cons c rest ih =>
      rw [firstLine]
      split
      · rename_i hc
        rw [hc]
        exact ⟨[], List.not_mem_nil, Or.inr rfl⟩
      · rename_i hc
        rcases ih with ⟨body, hbody, hline | hline⟩
        · exact ⟨c :: body, not_mem_cons hc hbody, Or.inl (by rw [hline])⟩
        · exact ⟨c :: body, not_mem_cons hc hbody, Or.inr (by rw [hline]; rfl)⟩

theorem fgets_shaped {size : Nat} {avail line rest : List Char}
    (h : fgets size avail = some (line, rest)) : LineShaped line := by
  cases avail with
  | nil => cases h
  | cons c more =>
      cases h
      exact (firstLine_shaped _).front (List.take_prefix _ _)

theorem LineShaped.oneLine {line : List Char} (h : LineShaped line) : OneLine line := by
  rcases h with ⟨body, hbody, rfl | rfl⟩
  · exact oneLine_of_noNewline hbody
  · unfold OneLine chomp lineOf
    rw [List.rdropWhile_concat_pos _ _ _ (by decide)]
    exact oneLine_of_noNewline hbody

theorem LineShaped.trimmed {line : List Char} (h : LineShaped line) :
    '\n' ∉ trim line := by
  have hsubset : forall body : List Char, '\n' ∉ body -> '\n' ∉ trim body :=
    fun body hbody hin => hbody ((trim_isInfix body).subset hin)
  rcases h with ⟨body, hbody, rfl | rfl⟩
  · exact hsubset _ hbody
  · have hsame : trim (lineOf body) = trim body := by
      unfold trim lineOf
      rw [List.dropWhile_append]
      split
      · rename_i hempty
        rw [List.isEmpty_iff.mp hempty]
        decide
      · exact List.rdropWhile_concat_pos _ _ _ (by decide)
    rw [hsame]
    exact hsubset body hbody

theorem pollLine_lastMsg (name : CString) {data : List Char} (h : LineShaped data) :
    '\n' ∉ (pollLine name data).lastMsg := by
  have htrim : '\n' ∉ trim (cstr data) :=
    (h.front (List.takeWhile_prefix _)).trimmed
  intro hin
  unfold pollLine at hin
  simp only at hin
  split at hin
  · exact htrim (List.mem_of_mem_drop (List.mem_of_mem_take hin))
  · exact htrim (List.mem_of_mem_take hin)

theorem pollLine_logsLines {name : CString} (hname : '\n' ∉ name) {data : List Char}
    (h : LineShaped data) :
    forall call, call ∈ (pollLine name data).logCalls -> LogCall.OneLine call := by
  have htrim : '\n' ∉ trim (cstr data) :=
    (h.front (List.takeWhile_prefix _)).trimmed
  intro call hcall
  unfold pollLine at hcall
  simp only at hcall
  split at hcall
  · cases hcall
  · rw [List.mem_singleton.mp hcall]
    apply oneLine_of_noNewline
    intro hin
    have hlong := List.mem_of_mem_take hin
    have hdash : '\n' ∉ " - ".toList := by decide
    simp only [List.mem_append] at hlong
    rcases hlong with (hin | hin) | hin
    · exact hname hin
    · exact hdash hin
    · exact htrim hin

theorem helperLine_oneLine (x : Helper) {data : List Char} (h : LineShaped data) :
    (helperLine x data).OneLine := by
  cases x with
  | hardware => trivial
  | dumpLog t => exact (h.front (List.takeWhile_prefix _)).oneLine

theorem labelOf_oneLine (caller : Caller) :
    forall call, call ∈ labelOf caller -> LogCall.OneLine call := by
  intro call hcall
  cases caller with
  | burnin i => cases hcall
  | helper x =>
      cases x with
      | hardware =>
          rw [List.mem_singleton.mp hcall]
          exact oneLine_of_noNewline (by decide)
      | dumpLog t =>
          rw [List.mem_singleton.mp hcall]
          exact oneLine_of_noNewline (by decide)

theorem helperDone_logs (m : Memory) (t : Nat) (x : Helper) :
    LogsLines m (helperDone m t x) := by
  cases x with
  | hardware =>
      refine LogsLines.say rfl rfl ?_
      intro call hcall
      rw [List.mem_singleton.mp hcall]
      exact oneLine_of_noNewline (by decide)
  | dumpLog d => exact LogsLines.same rfl rfl

theorem forkReturned_logs (m : Memory) (t pipe : Nat) (pid : Int) (caller : Caller)
    (out : ForkOutcome) :
    LogsLines m (forkReturned (openPipe m pipe caller) t pipe pid caller out) := by
  have hopen : LogsLines m (openPipe m pipe caller) :=
    LogsLines.say rfl rfl (labelOf_oneLine caller)
  have htail : LogsLines (openPipe m pipe caller)
      (forkTail (openPipe m pipe caller) pipe pid out).1 := by
    unfold forkTail
    split
    · exact LogsLines.same rfl rfl
    · exact LogsLines.same rfl rfl
  refine (hopen.trans htail).trans ?_
  unfold forkReturned
  cases caller with
  | burnin i =>
      have hnone : forall call : LogCall, call ∈ ([] : List LogCall) -> call.OneLine := by
        intro call hcall
        cases hcall
      exact LogsLines.update (List.append_nil _).symm rfl hnone (fun _ => rfl)
        fun _ hmsg => hmsg
  | helper x =>
      simp only [returnTo]
      split
      · exact helperDone_logs _ t x
      · exact LogsLines.same rfl rfl

theorem classifyLog_oneLine {script : BurninScript} (hname : '\n' ∉ script.name)
    (res : WaitOutcome) :
    forall call, call ∈ classifyLog script res -> LogCall.OneLine call := by
  have hquoted : forall front back : String, '\n' ∉ front.toList ->
      '\n' ∉ back.toList -> OneLine (front.toList ++ script.name ++ back.toList) := by
    intro front back hfront hback
    apply oneLine_of_noNewline
    simp [hfront, hname, hback]
  intro call hcall
  cases res with
  | error => cases hcall
  | nochange => cases hcall
  | status status =>
      cases status with
      | signaled sig =>
          rw [List.mem_singleton.mp hcall]
          exact hquoted _ _ (by decide) (by decide)
      | exited code =>
          unfold classifyLog at hcall
          simp only at hcall
          split at hcall
          · rw [List.mem_singleton.mp hcall]
            exact hquoted _ _ (by decide) (by decide)
          · cases hcall

theorem classify_lastMsg (script : BurninScript) (res : WaitOutcome) :
    (classify script res).lastMsg = script.lastMsg := by
  cases res with
  | error => rfl
  | nochange => rfl
  | status status =>
      cases status with
      | signaled sig => rfl
      | exited code =>
          unfold classify
          dsimp only
          split
          · rfl
          · split
            · rfl
            · rfl

theorem waited_logs {m m' : Memory} {t : Nat} {res : WaitOutcome} {pc : PC}
    (htable : TableLines m) (h : waited m t res pc = some m') : LogsLines m m' := by
  unfold waited at h
  split at h
  · rename_i i
    split at h
    · rename_i script hscript
      split at h
      · rename_i fp hfp
        cases h
        rcases htable script (List.mem_of_getElem? hscript) with ⟨hname, _⟩
        have hlog : (pollWaited m t i script fp res).log =
            m.log ++ classifyLog script res := by
          cases res with
          | _ => rfl
        have hscripts : (pollWaited m t i script fp res).scripts =
            m.scripts.modify i fun sc => classify sc res := by
          cases res with
          | _ => rfl
        exact LogsLines.update hlog hscripts (classifyLog_oneLine hname res)
          (fun sc => congrArg Prod.fst (classify_test sc res))
          fun sc hmsg => (classify_lastMsg sc res).symm ▸ hmsg
      · cases h
    · cases h
  · rename_i x pid fp
    cases h
    have hfinished : forall call, call ∈ helperFinished x -> LogCall.OneLine call := by
      intro call hcall
      cases x with
      | hardware =>
          rw [List.mem_singleton.mp hcall]
          exact oneLine_of_noNewline (by decide)
      | dumpLog d => cases hcall
    have hdone : LogsLines m (helperDone ((closeRead m fp).say (helperFinished x)) t x) := by
      have hsay : LogsLines m ((closeRead m fp).say (helperFinished x)) :=
        LogsLines.say rfl rfl hfinished
      exact hsay.trans (helperDone_logs _ t x)
    cases res with
    | nochange => exact LogsLines.same rfl rfl
    | error => exact hdone
    | status status => exact hdone
  · cases h

theorem drained_logs {m m' : Memory} {t : Nat} {line : Option (List Char)} {pc : PC}
    (htable : TableLines m) (hline : forall data, line = some data -> LineShaped data)
    (h : drained m t line pc = some m') : LogsLines m m' := by
  unfold drained at h
  split at h
  · split at h
    · cases h
    · cases h
      exact LogsLines.same rfl rfl
    · rename_i script data hscript
      cases h
      rcases htable script (List.mem_of_getElem? hscript) with ⟨hname, _⟩
      exact LogsLines.update rfl rfl (pollLine_logsLines hname (hline data rfl))
        (fun _ => rfl) fun sc _ => pollLine_lastMsg sc.name (hline data rfl)
  · split at h
    · cases h
      exact LogsLines.same rfl rfl
    · rename_i data
      cases h
      refine LogsLines.say rfl rfl ?_
      intro call hcall
      rw [List.mem_singleton.mp hcall]
      exact helperLine_oneLine _ (hline data rfl)
  · cases h

theorem pollVisit_logs {m : Memory} {t i : Nat} (htable : TableLines m) :
    LogsLines m (pollVisit m t i) := by
  unfold pollVisit
  split
  · exact LogsLines.same rfl rfl
  · rename_i script hscript
    split
    · split
      · refine LogsLines.say rfl rfl ?_
        intro call hcall
        rw [List.mem_singleton.mp hcall]
        rcases htable script (List.mem_of_getElem? hscript) with ⟨hname, _⟩
        show OneLine ("Error reading stdout from: ".toList ++ script.name ++ ['\n'])
        unfold OneLine chomp
        rw [List.rdropWhile_concat_pos _ _ _ (by decide)]
        exact oneLine_of_noNewline (by simp [hname])
      · exact LogsLines.same rfl rfl
    · exact LogsLines.same rfl rfl

theorem launchVisit_logs {m m' : Memory} {t i : Nat} (h : launchVisit m t i = some m') :
    LogsLines m m' := by
  unfold launchVisit at h
  split at h
  · cases h
    exact LogsLines.same rfl rfl
  · split at h
    · cases h
    · cases h
      exact LogsLines.same rfl rfl

/-- Whatever a step logs is a line. -/
theorem RootStep.logs {v v' : View} {a : Action} (h : RootStep v a v')
    (htable : TableLines v.mem) : LogsLines v.mem v'.mem := by
  cases h with
  | foreign extra hforeign hnone hlength => exact LogsLines.same rfl rfl
  | execve hp => exact LogsLines.same rfl rfl
  | write out hchild => exact LogsLines.same rfl rfl
  | exit halive => exact LogsLines.same rfl rfl
  | dumpLog => exact LogsLines.same rfl rfl
  | forkFailed hpc hcaller hchild => exact forkReturned_logs _ _ _ _ _ _
  | forked hpc hcaller hchild hpos hfree => exact forkReturned_logs _ _ _ _ _ _
  | launch hpc hvisit => exact launchVisit_logs hvisit
  | poll hpc => exact pollVisit_logs htable
  | drained hpc harg hpipe hempty hdrained =>
      refine drained_logs htable ?_ hdrained
      intro data hnone
      cases hnone
  | line hpc harg hpipe hfgets hdrained =>
      refine drained_logs htable ?_ hdrained
      intro data hdata
      rw [← Option.some.inj hdata]
      rcases Pipe.fgets_some hfgets with ⟨rest, hline, _⟩
      exact fgets_shaped hline
  | waitError hpc harg hnone hwaited => exact waited_logs htable hwaited
  | waitNochange hpc harg hsome hnone hwaited => exact waited_logs htable hwaited
  | waitReaped hpc harg hc hselect hlife hwaited => exact waited_logs htable hwaited
  | wake hpc => exact LogsLines.same rfl rfl

/-- In every run all that is logged are lines, and so are the texts in the table. -/
theorem run_logsLines {pid : Nat} {tests : List CString} {acts : List Action}
    {w : World} {m : Memory} (htests : forall name, name ∈ tests -> '\n' ∉ name)
    (hrun : ExecRun (start pid tests) acts w) (hm : w.memory? 0 = some m) :
    (forall call, call ∈ m.log -> LogCall.OneLine call) ∧ TableLines m := by
  have hstart : (forall call, call ∈ (startView tests).mem.log -> LogCall.OneLine call) ∧
      TableLines (startView tests).mem := by
    constructor
    · intro call hcall
      cases hcall
    · intro script hscript
      rcases List.mem_map.mp hscript with ⟨name, hname, rfl⟩
      exact ⟨htests name hname, List.not_mem_nil⟩
  have hkeep : forall (acts : List Action) (a : Action) (u : World) (v v' : View),
      Good u v ->
      (forall call, call ∈ v.mem.log -> LogCall.OneLine call) ∧ TableLines v.mem ->
      RootStep v a v' -> ¬ Foreign a -> ¬ ExecveFails a ->
        (forall call, call ∈ v'.mem.log -> LogCall.OneLine call) ∧
          TableLines v'.mem := by
    rintro _ a u v v' _ ⟨hlines, htable⟩ hroot _ _
    have hlogs := hroot.logs htable
    rcases hlogs.log with ⟨calls, hlog, hcalls⟩
    constructor
    · rw [hlog]
      exact List.forall_mem_append.mpr ⟨hlines, hcalls⟩
    · exact hlogs.table htable
  rcases good_history (good_start pid tests) hstart hkeep hrun with ⟨v, hgood, hall⟩
  rcases hgood.view.root with ⟨rootPid, hroot⟩
  have hmem : w.memory? 0 = some v.mem :=
    memory?_some_iff.mpr ⟨_, hroot, rfl, rfl⟩
  rw [hm] at hmem
  rw [Option.some.inj hmem]
  exact hall

/-- What else is logged while the scheduler runs: a line that `show_log` or
`monitor_syslog` has read and trimmed, or a message of `main` without a line end. -/
inductive OtherCall : LogCall -> Prop where
  | line {size : Nat} {avail data rest : List Char} :
      fgets size avail = some (data, rest) ->
      OtherCall (.error (trim (cstr data)))
  | message {text : CString} :
      '\n' ∉ text ->
      OtherCall (.message text)

theorem OtherCall.oneLine {call : LogCall} (h : OtherCall call) : call.OneLine := by
  cases h with
  | @line size avail data rest hfgets =>
      have hshaped : LineShaped (cstr data) :=
        (fgets_shaped hfgets).front (List.takeWhile_prefix _)
      exact oneLine_of_noNewline hshaped.trimmed
  | message htext => exact oneLine_of_noNewline htext

/-- What is read from the log file is what it held and what has been logged since, in
order and with its times. -/
theorem log_reads_back {pid : Nat} {tests : List CString} {acts : List Action}
    {w : World} {m : Memory} (htests : forall name, name ∈ tests -> '\n' ∉ name)
    (hrun : ExecRun (start pid tests) acts w) (hm : w.memory? 0 = some m)
    {stamped : List (Nat × LogCall)}
    (hlog : forall c, c ∈ stamped -> c.2 ∈ m.log ∨ OtherCall c.2)
    {earlier : List Char} (hearlier : lineStart earlier = true) :
    recordsIn (earlier ++ logFileTexts stamped) =
      recordsIn earlier ++ stamped.filterMap fun c => c.2.record c.1 := by
  have hlines : forall c, c ∈ stamped -> c.2.OneLine := by
    intro c hc
    rcases hlog c hc with hrunLog | hother
    · exact (run_logsLines htests hrun hm).left c.2 hrunLog
    · exact hother.oneLine
  rw [recordsIn_append hearlier, recordsIn_logFileTexts hlines]

theorem log_reads_back_oneScript :
    exists w m, run (start 1 ["hpl".toList]) oneScriptRun = some w ∧
      w.memory? 0 = some m ∧
      let stamped := m.log.map (fun call => (5000, call)) ++
        [(5001, .message "SSH server listing on port 22".toList)]
      recordsIn ("MSG 00h 00m 02s Starting burnin tests\n\n".toList ++
          logFileTexts stamped) =
        recordsIn "MSG 00h 00m 02s Starting burnin tests\n\n".toList ++
          stamped.filterMap fun c => c.2.record c.1 := by
  have hnames : forall name, name ∈ ["hpl".toList] -> '\n' ∉ name := by
    intro name hname
    rw [List.mem_singleton.mp hname]
    decide
  have hexec : forall a, a ∈ oneScriptRun -> ¬ ExecveFails a := by decide
  have hrun : exists w m, run (start 1 ["hpl".toList]) oneScriptRun = some w ∧
      w.memory? 0 = some m := ⟨_, _, rfl, rfl⟩
  rcases hrun with ⟨w, m, hrun, hm⟩
  refine ⟨w, m, hrun, hm, log_reads_back hnames ⟨hrun, hexec⟩ hm ?_ (by decide)⟩
  intro c hc
  rcases List.mem_append.mp hc with hlog | hssh
  · rcases List.mem_map.mp hlog with ⟨call, hcall, rfl⟩
    exact Or.inl hcall
  · rw [List.mem_singleton.mp hssh]
    exact Or.inr (OtherCall.message (by decide))

end Scheduler
end Breakin
