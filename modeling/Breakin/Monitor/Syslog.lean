import Breakin.Foundation.FileTail
import Breakin.Scheduler.Lines

/-!
# The system log

`monitor_syslog` passes on the alarms of the system log.  It saves an offset from
poll to poll and never asks whether the file is still the one the offset belongs
to.
-/

namespace Breakin
namespace Monitor

open Foundation
open Util
open Scheduler

/-- `strstr(text, word) != NULL`. -/
def strstr : CString -> CString -> Bool
  | [], word => word.isEmpty
  | c :: rest, word => word.isPrefixOf (c :: rest) || strstr rest word

def errWord : CString := ".err".toList

def emergWord : CString := ".emerg".toList

def alarms (text : CString) : Bool :=
  strstr text errWord || strstr text emergWord

/-- The system log, the saved offset `syslog_pos` and the calls of `log_error`.
`fresh` is the history: the lines appended to the current file since the last poll
that opened it. -/
structure Syslog where
  file : Option (List Char)
  syslogPos : Option Nat
  passed : List CString
  fresh : List (List Char)
deriving DecidableEq

/-- A rotation replaces the file by a new empty one; the first one creates it. -/
inductive SyslogEvent where
  | rotate
  | append (body : List Char)
  | poll
deriving DecidableEq

def monitorSyslog (s : Syslog) : Syslog :=
  match s.file with
  | none => s
  | some content =>
      let result := tailFrom BUFSIZ s.syslogPos content
      { s with
        syslogPos := some result.2
        passed :=
          s.passed ++
            (result.1.map fun buf => trim (cstr buf)).filter alarms
        fresh := [] }

def syslogStep (s : Syslog) : SyslogEvent -> Option Syslog
  | .rotate => some { s with file := some [], fresh := [] }
  | .append body =>
      match s.file with
      | none => none
      | some content =>
          if '\n' ∈ body then none
          else
            some
              { s with
                file := some (content ++ lineOf body)
                fresh := s.fresh ++ [body] }
  | .poll => some (monitorSyslog s)

def syslogStart : Syslog where
  file := none
  syslogPos := none
  passed := []
  fresh := []

def due (fresh : List (List Char)) : List CString :=
  (fresh.filter alarms).map lineText

/-- Every poll after the first one that opened the file passes on what it should,
and nothing else. -/
def PassesAlarms (evs : List SyslogEvent) : Prop :=
  forall pre post s, evs = pre ++ .poll :: post ->
    runFrom syslogStep syslogStart pre = some s -> s.syslogPos ≠ none ->
      (monitorSyslog s).passed = s.passed ++ due s.fresh

def Readable (body : List Char) : Prop :=
  alarms body = true -> NUL ∉ body ∧ body.length + 1 < BUFSIZ

instance (body : List Char) : Decidable (Readable body) :=
  inferInstanceAs (Decidable (_ -> _ ∧ _))

/-- With `skip` characters of the new lines passed over, no line with an alarm
loses more than leading blanks. -/
def sparesAlarms : Nat -> List (List Char) -> Bool
  | _, [] => true
  | skip, b :: rest =>
      (!alarms b || decide (skip ≤ (b.takeWhile isBlank).length)) &&
        sparesAlarms (skip - (b.length + 1)) rest

def overrun (s : Syslog) : Nat :=
  match s.file, s.syslogPos with
  | some content, some n => n - (content.length - (streamOf s.fresh).length)
  | _, _ => 0

def SparesAlarms (s : Syslog) (e : SyslogEvent) : Prop :=
  e = .poll -> sparesAlarms (overrun s) s.fresh = true

instance (s : Syslog) (e : SyslogEvent) : Decidable (SparesAlarms s e) :=
  inferInstanceAs (Decidable (_ -> _))

def NotRotated (s : Syslog) (e : SyslogEvent) : Prop :=
  e = .rotate -> s.syslogPos = none

instance (s : Syslog) (e : SyslogEvent) : Decidable (NotRotated s e) :=
  inferInstanceAs (Decidable (_ -> _))

/-!
# Alarms in lines and in what is read of them
-/

theorem strstr_iff {text word : CString} :
    strstr text word = true <-> word <:+: text := by
  induction text with
  | nil => simp [strstr]
  | cons c rest ih =>
      rw [strstr, Bool.or_eq_true, List.isPrefixOf_iff_prefix, ih,
        List.infix_cons_iff]

theorem alarms_iff {text : CString} :
    alarms text = true <-> errWord <:+: text ∨ emergWord <:+: text := by
  unfold alarms
  rw [Bool.or_eq_true, strstr_iff, strstr_iff]

theorem alarms_of_isInfix {s t : CString} (hst : s <:+: t)
    (h : alarms s = true) : alarms t = true := by
  rw [alarms_iff] at h ⊢
  exact h.imp (fun h => h.trans hst) fun h => h.trans hst

theorem alarms_trim (s : CString) : alarms (trim s) = alarms s := by
  have herr : errWord <:+: trim s <-> errWord <:+: s :=
    infix_trim_iff (c := '.') (d := 'r') (w := "er".toList) rfl rfl
  have hemerg : emergWord <:+: trim s <-> emergWord <:+: s :=
    infix_trim_iff (c := '.') (d := 'g') (w := "emer".toList) rfl rfl
  rw [Bool.eq_iff_iff, alarms_iff, alarms_iff, herr, hemerg]

theorem infix_lineOf {c : Char} {w body : List Char} (hc : c ≠ '\n')
    (h : w ++ [c] <:+: lineOf body) : w ++ [c] <:+: body := by
  unfold lineOf at h
  rcases List.infix_concat_iff.mp h with hsuffix | hin
  · rcases List.suffix_concat_iff.mp hsuffix with hnil | ⟨t, heq, _⟩
    · simp at hnil
    · exact absurd (List.append_inj' heq rfl).right (by simpa using hc)
  · exact hin

theorem alarms_lineOf (body : List Char) : alarms (lineOf body) = alarms body := by
  have herr : errWord <:+: lineOf body -> errWord <:+: body :=
    infix_lineOf (w := ".er".toList) (c := 'r') (by decide)
  have hemerg : emergWord <:+: lineOf body -> emergWord <:+: body :=
    infix_lineOf (w := ".emer".toList) (c := 'g') (by decide)
  rw [Bool.eq_iff_iff]
  constructor
  · intro h
    exact alarms_iff.mpr ((alarms_iff.mp h).imp herr hemerg)
  · exact alarms_of_isInfix (List.infix_append_left)

theorem cstr_isInfix (buf : List Char) : cstr buf <:+: buf :=
  (List.takeWhile_prefix _).isInfix

theorem lineText_of_readable {body : List Char} (h : NUL ∉ body) :
    lineText body = trim (lineOf body) := by
  unfold lineText cstr
  congr 1
  rw [List.takeWhile_eq_self_iff]
  intro c hc
  rw [bne_iff_ne]
  intro heq
  rw [heq] at hc
  rcases List.mem_append.mp hc with hbody | hend
  · exact h hbody
  · cases List.mem_singleton.mp hend

theorem Readable.drop {body : List Char} (h : Readable body) (n : Nat) :
    Readable (body.drop n) := by
  intro halarm
  have hsuffix : body.drop n <:+ body := List.drop_suffix n body
  rcases h (alarms_of_isInfix hsuffix.isInfix halarm) with ⟨hnul, hfits⟩
  constructor
  · exact fun hin => hnul (hsuffix.subset hin)
  · have hle := hsuffix.length_le
    omega

/-- What the loop passes on of one line: the line, when it has an alarm. -/
theorem readAs_passed {body : List Char} {pieces : List (List Char)}
    (hread : FileStream.ReadAs BUFSIZ body pieces) (hbody : Readable body) :
    (pieces.map fun buf => trim (cstr buf)).filter alarms = due [body] := by
  cases halarm : alarms body with
  | true =>
      rcases hbody halarm with ⟨hnul, hfits⟩
      have htext : alarms (trim (cstr (lineOf body))) = true := by
        change alarms (lineText body) = true
        rw [lineText_of_readable hnul, alarms_trim, alarms_lineOf, halarm]
      rw [hread.right hfits]
      simp [due, halarm, htext, lineText]
  | false =>
      have hnone : (pieces.map fun buf => trim (cstr buf)).filter alarms = [] := by
        rw [List.filter_eq_nil_iff]
        intro text htext halarm'
        rcases List.mem_map.mp htext with ⟨piece, hpiece, heq⟩
        rw [← heq, alarms_trim] at halarm'
        have hin : cstr piece <:+: lineOf body := by
          rw [← hread.left]
          exact (cstr_isInfix piece).trans (List.infix_of_mem_flatten hpiece)
        have hline := alarms_of_isInfix hin halarm'
        rw [alarms_lineOf, halarm] at hline
        cases hline
      rw [hnone]
      simp [due, halarm]

theorem due_cons (b : List Char) (rest : List (List Char)) :
    due (b :: rest) = due [b] ++ due rest := by
  unfold due
  rw [← List.map_append, ← List.filter_append, List.singleton_append]

theorem readAs_passed_all {bodies : List (List Char)}
    {groups : List (List (List Char))}
    (hread : List.Forall₂ (FileStream.ReadAs BUFSIZ) bodies groups)
    (hbodies : forall b, b ∈ bodies -> Readable b) :
    (groups.flatten.map fun buf => trim (cstr buf)).filter alarms =
      due bodies := by
  induction hread with
  | nil => rfl
  | @cons b pieces rest groups' hhead _ ih =>
      rw [List.flatten_cons, List.map_append, List.filter_append, due_cons,
        readAs_passed hhead (hbodies b (by simp)),
        ih fun b' hb' => hbodies b' (List.mem_cons_of_mem b hb')]

/-!
# Alarms passed over
-/

theorem sparesAlarms_zero (bodies : List (List Char)) :
    sparesAlarms 0 bodies = true := by
  induction bodies with
  | nil => rfl
  | cons b rest ih => simp [sparesAlarms, ih]

theorem due_length_cons (b : List Char) (rest : List (List Char)) :
    (due (b :: rest)).length =
      (if alarms b = true then 1 else 0) + (due rest).length := by
  rw [due_cons, List.length_append]
  cases halarm : alarms b with
  | true => simp [due, halarm]
  | false => simp [due, halarm]

theorem due_dropLines_length (skip : Nat) (bodies : List (List Char)) :
    (due (dropLines skip bodies)).length ≤ (due bodies).length := by
  induction bodies generalizing skip with
  | nil => exact Nat.le_refl _
  | cons b rest ih =>
      unfold dropLines
      by_cases hskip : skip ≤ b.length
      · rw [if_pos hskip, due_length_cons, due_length_cons]
        cases hrest : alarms (b.drop skip) with
        | true =>
            have hb := alarms_of_isInfix (List.drop_suffix skip b).isInfix hrest
            simp [hb]
        | false => simp
      · rw [if_neg hskip, due_length_cons]
        have hle := ih (skip - (b.length + 1))
        omega

theorem takeWhile_lineOf (body : List Char) :
    (lineOf body).takeWhile isBlank = body.takeWhile isBlank := by
  unfold lineOf
  rw [List.takeWhile_append]
  have hend : ['\n'].takeWhile isBlank = [] := rfl
  by_cases hall : (body.takeWhile isBlank).length = body.length
  · rw [if_pos hall, hend, List.append_nil]
    exact ((List.takeWhile_prefix isBlank).eq_of_length hall).symm
  · rw [if_neg hall]

theorem lineOf_drop {body : List Char} {n : Nat} (hn : n ≤ body.length) :
    lineOf (body.drop n) = (lineOf body).drop n := by
  unfold lineOf
  rw [List.drop_append_of_le_length hn]

theorem due_singleton {body : List Char} (hbody : Readable body) :
    due [body] =
      if alarms body = true then [trim (lineOf body)] else [] := by
  cases halarm : alarms body with
  | true => simp [due, halarm, lineText_of_readable (hbody halarm).left]
  | false => simp [due, halarm]

/-- The rest of a line is passed on as the line exactly when only blanks are
missing from a line with an alarm. -/
theorem due_drop_iff {b : List Char} {n : Nat} (hb : Readable b)
    (hn : n ≤ b.length) :
    due [b.drop n] = due [b] <->
      (!alarms b || decide (n ≤ (b.takeWhile isBlank).length)) = true := by
  rw [due_singleton hb, due_singleton (hb.drop n)]
  have hrest : alarms (b.drop n) = true -> alarms b = true :=
    alarms_of_isInfix (List.drop_suffix n b).isInfix
  cases halarm : alarms b with
  | false =>
      have hfalse : alarms (b.drop n) = false := by
        rw [halarm] at hrest
        simpa using hrest
      simp [hfalse]
  | true =>
      rw [lineOf_drop hn]
      by_cases hlead : n ≤ (b.takeWhile isBlank).length
      · -- only blanks are missing, and trimming takes those anyway
        have hsame : trim ((lineOf b).drop n) = trim (lineOf b) :=
          trim_drop (by rw [takeWhile_lineOf]; exact hlead)
        have hstill : alarms (b.drop n) = true := by
          rw [← alarms_lineOf, lineOf_drop hn, ← alarms_trim, hsame,
            alarms_trim, alarms_lineOf, halarm]
        simp [hsame, hstill, hlead]
      · have hne : trim (lineOf b) ≠ [] := by
          intro hnil
          have hbad : alarms (trim (lineOf b)) = true := by
            rw [alarms_trim, alarms_lineOf, halarm]
          rw [hnil] at hbad
          exact absurd hbad (by decide)
        have hshorter : (trim ((lineOf b).drop n)).length <
            (trim (lineOf b)).length :=
          trim_drop_length hne (by rw [takeWhile_lineOf]; omega)
        have hdiffer : trim ((lineOf b).drop n) ≠ trim (lineOf b) := by
          intro heq
          rw [heq] at hshorter
          omega
        cases hdrop : alarms (b.drop n) with
        | true => simp [hdiffer, hlead]
        | false => simp [hlead]

theorem due_dropLines_iff {skip : Nat} {bodies : List (List Char)}
    (hbodies : forall b, b ∈ bodies -> Readable b) :
    due (dropLines skip bodies) = due bodies <->
      sparesAlarms skip bodies = true := by
  induction bodies generalizing skip with
  | nil => simp [dropLines, sparesAlarms]
  | cons b rest ih =>
      have hb := hbodies b (by simp)
      have hrest : forall b', b' ∈ rest -> Readable b' :=
        fun b' hb' => hbodies b' (List.mem_cons_of_mem b hb')
      unfold dropLines sparesAlarms
      by_cases hskip : skip ≤ b.length
      · -- the offset falls into this line, and every later line is whole
        have hzero : skip - (b.length + 1) = 0 := by omega
        rw [if_pos hskip, hzero, sparesAlarms_zero, Bool.and_true, due_cons,
          due_cons b, List.append_left_inj]
        exact due_drop_iff hb hskip
      · -- this line is passed over
        rw [if_neg hskip, due_cons b]
        cases halarm : alarms b with
        | false =>
            have hnone : due [b] = [] := by simp [due, halarm]
            rw [hnone, List.nil_append, ih hrest]
            simp
        | true =>
            have hlead : (b.takeWhile isBlank).length ≤ b.length :=
              (List.takeWhile_prefix isBlank).length_le
            have hone : (due [b]).length = 1 := by simp [due, halarm]
            have hfewer := due_dropLines_length (skip - (b.length + 1)) rest
            constructor
            · intro heq
              have hlength := congrArg List.length heq
              rw [List.length_append, hone] at hlength
              omega
            · intro hspares
              simp at hspares
              omega

/-!
# One poll
-/

structure Tailing (s : Syslog) : Prop where
  whole : forall b, b ∈ s.fresh -> '\n' ∉ b
  saved : forall n, s.syslogPos = some n ->
    exists old, s.file = some (old ++ streamOf s.fresh) ∧ old.length ≤ n

theorem Tailing.poll_passed {s : Syslog} (h : Tailing s) {n : Nat}
    (hpos : s.syslogPos = some n)
    (hread : forall b, b ∈ s.fresh -> Readable b) :
    (monitorSyslog s).passed =
      s.passed ++ due (dropLines (overrun s) s.fresh) := by
  rcases h.saved n hpos with ⟨old, hfile, hold⟩
  have hover : overrun s = n - old.length := by
    unfold overrun
    rw [hfile, hpos]
    simp only [List.length_append]
    omega
  have hunread : (old ++ streamOf s.fresh).drop n =
      streamOf (dropLines (overrun s) s.fresh) := by
    rw [← streamOf_drop, hover, List.drop_append, List.drop_eq_nil_of_le hold,
      List.nil_append]
  have hwhole : forall b, b ∈ dropLines (overrun s) s.fresh -> '\n' ∉ b := by
    intro b hb
    rcases dropLines_mem hb with ⟨b0, k, hmem, heq⟩
    rw [heq]
    exact fun hin => h.whole b0 hmem (List.mem_of_mem_drop hin)
  have hreadable : forall b, b ∈ dropLines (overrun s) s.fresh ->
      Readable b := by
    intro b hb
    rcases dropLines_mem hb with ⟨b0, k, hmem, heq⟩
    rw [heq]
    exact (hread b0 hmem).drop k
  have hbuf : 1 < BUFSIZ := by decide
  rcases tailFrom_lines hbuf hwhole hunread
    with ⟨groups, hreads, hgroups⟩
  unfold monitorSyslog
  rw [hfile, hpos]
  change s.passed ++ List.filter alarms
    ((tailFrom BUFSIZ (some n) _).1.map _) = _
  rw [hreads, readAs_passed_all hgroups hreadable]

theorem monitorSyslog_fresh {s : Syslog} {content : List Char}
    (hfile : s.file = some content) :
    (monitorSyslog s).file = some content ∧ (monitorSyslog s).fresh = [] ∧
      (monitorSyslog s).syslogPos =
        some (match s.syslogPos with
          | none => content.length
          | some n => max n content.length) := by
  unfold monitorSyslog
  rw [hfile]
  refine ⟨rfl, rfl, ?_⟩
  cases hpos : s.syslogPos with
  | none =>
      change some (tailFrom BUFSIZ none content).2 = _
      rw [tailFrom_none_offset (by decide)]
  | some n =>
      change some (tailFrom BUFSIZ (some n) content).2 = _
      rw [tailFrom_some_offset (by decide)]

theorem monitorSyslog_absent {s : Syslog} (hfile : s.file = none) :
    monitorSyslog s = s := by
  unfold monitorSyslog
  rw [hfile]

theorem syslogStep_append {s t : Syslog} {body : List Char}
    (h : syslogStep s (.append body) = some t) :
    exists content, s.file = some content ∧ '\n' ∉ body ∧
      t = { s with
        file := some (content ++ lineOf body)
        fresh := s.fresh ++ [body] } := by
  unfold syslogStep at h
  cases hfile : s.file with
  | none =>
      rw [hfile] at h
      cases h
  | some content =>
      rw [hfile] at h
      by_cases hend : '\n' ∈ body
      · simp [hend] at h
      · simp only [hend, if_false, Option.some.injEq] at h
        exact ⟨content, rfl, hend, h.symm⟩

theorem streamOf_snoc (bodies : List (List Char)) (body : List Char) :
    streamOf (bodies ++ [body]) = streamOf bodies ++ lineOf body := by
  simp [streamOf]

theorem tailing_start : Tailing syslogStart :=
  ⟨fun _ hb => (by cases hb), fun _ hn => (by cases hn)⟩

theorem Tailing.step {s t : Syslog} {e : SyslogEvent} (h : Tailing s)
    (hstep : syslogStep s e = some t) : Tailing t := by
  cases e with
  | rotate =>
      cases hstep
      refine ⟨fun _ hb => (by cases hb), fun n _ => ?_⟩
      exact ⟨[], rfl, Nat.zero_le n⟩
  | append body =>
      rcases syslogStep_append hstep with ⟨content, hfile, hend, ht⟩
      rw [ht]
      constructor
      · intro b hb
        rcases List.mem_append.mp hb with hold | hnew
        · exact h.whole b hold
        · rw [List.mem_singleton.mp hnew]
          exact hend
      · intro n hn
        rcases h.saved n hn with ⟨old, hcontent, hold⟩
        rw [hfile, Option.some.injEq] at hcontent
        exists old
        refine ⟨?_, hold⟩
        change some (content ++ lineOf body) =
          some (old ++ streamOf (s.fresh ++ [body]))
        rw [hcontent, streamOf_snoc, List.append_assoc]
  | poll =>
      cases hstep
      cases hfile : s.file with
      | none =>
          rw [monitorSyslog_absent hfile]
          exact h
      | some content =>
          rcases monitorSyslog_fresh hfile with ⟨hkept, hfresh, hpos⟩
          constructor
          · intro b hb
            rw [hfresh] at hb
            cases hb
          · intro n hn
            exists content
            rw [hkept, hfresh]
            refine ⟨by simp [streamOf], ?_⟩
            rw [hpos, Option.some.injEq] at hn
            rw [← hn]
            cases s.syslogPos with
            | none => exact Nat.le_refl _
            | some m => exact Nat.le_max_right m _

/-!
# Runs
-/

theorem tailing_reachable {evs : List SyslogEvent} {t : Syslog}
    (hrun : runFrom syslogStep syslogStart evs = some t) : Tailing t :=
  runFrom_history (R := fun _ t => Tailing t) tailing_start
    (fun _ _ _ _ _ ih hstep => ih.step hstep) hrun

theorem fresh_appended {evs : List SyslogEvent} {t : Syslog}
    (hrun : runFrom syslogStep syslogStart evs = some t) :
    forall b, b ∈ t.fresh -> SyslogEvent.append b ∈ evs := by
  refine runFrom_history (R := fun evs t =>
    forall b, b ∈ t.fresh -> SyslogEvent.append b ∈ evs) ?_ ?_ hrun
  · intro b hb
    cases hb
  · intro evs e s t _hrun ih hstep b hb
    cases e with
    | rotate =>
        cases hstep
        cases hb
    | append body =>
        rcases syslogStep_append hstep with ⟨content, _, _, ht⟩
        rw [ht] at hb
        rcases List.mem_append.mp hb with hold | hnew
        · exact List.mem_append_left _ (ih b hold)
        · rw [List.mem_singleton.mp hnew]
          simp
    | poll =>
        cases hstep
        cases hfile : s.file with
        | none =>
            rw [monitorSyslog_absent hfile] at hb
            exact List.mem_append_left _ (ih b hb)
        | some content =>
            rw [(monitorSyslog_fresh hfile).right.left] at hb
            cases hb

theorem overrun_unopened {s : Syslog} (hpos : s.syslogPos = none) :
    overrun s = 0 := by
  unfold overrun
  rw [hpos]
  cases s.file <;> rfl

theorem passesAlarms_iff_spares {evs : List SyslogEvent}
    (hlines : forall b, SyslogEvent.append b ∈ evs -> Readable b) :
    PassesAlarms evs <->
      StepsMeet syslogStep syslogStart evs SparesAlarms := by
  have hpoll : forall pre post s n, evs = pre ++ .poll :: post ->
      runFrom syslogStep syslogStart pre = some s -> s.syslogPos = some n ->
        ((monitorSyslog s).passed = s.passed ++ due s.fresh <->
          sparesAlarms (overrun s) s.fresh = true) := by
    intro pre post s n hevs hrun hpos
    have hread : forall b, b ∈ s.fresh -> Readable b := by
      intro b hb
      apply hlines
      rw [hevs]
      exact List.mem_append_left _ (fresh_appended hrun b hb)
    rw [(tailing_reachable hrun).poll_passed hpos hread,
      List.append_right_inj, due_dropLines_iff hread]
  constructor
  · intro hall pre e post s hevs hrun he
    rw [he] at hevs
    cases hpos : s.syslogPos with
    | none =>
        rw [overrun_unopened hpos]
        exact sparesAlarms_zero _
    | some n =>
        exact (hpoll pre post s n hevs hrun hpos).mp
          (hall pre post s hevs hrun (by simp [hpos]))
  · intro hmeet pre post s hevs hrun hopened
    rcases Option.ne_none_iff_exists'.mp hopened with ⟨n, hpos⟩
    exact (hpoll pre post s n hevs hrun hpos).mpr
      (hmeet pre .poll post s hevs hrun rfl)

theorem overrun_of_notRotated {evs : List SyslogEvent} {t : Syslog}
    (hmeet : StepsMeet syslogStep syslogStart evs NotRotated)
    (hrun : runFrom syslogStep syslogStart evs = some t) : overrun t = 0 := by
  have hexact : forall n, t.syslogPos = some n ->
      exists old, t.file = some (old ++ streamOf t.fresh) ∧
        old.length = n := by
    refine runFrom_invariant (P := fun t => forall n, t.syslogPos = some n ->
      exists old, t.file = some (old ++ streamOf t.fresh) ∧ old.length = n)
      ?_ ?_ hmeet hrun
    · intro s e u h hkeep hstep n hn
      cases e with
      | rotate =>
          cases hstep
          rw [show s.syslogPos = none from hkeep rfl] at hn
          cases hn
      | append body =>
          rcases syslogStep_append hstep with ⟨content, hfile, _, hu⟩
          rw [hu] at hn ⊢
          rcases h n hn with ⟨old, hcontent, hold⟩
          rw [hfile, Option.some.injEq] at hcontent
          exists old
          refine ⟨?_, hold⟩
          change some (content ++ lineOf body) =
            some (old ++ streamOf (s.fresh ++ [body]))
          rw [hcontent, streamOf_snoc, List.append_assoc]
      | poll =>
          cases hstep
          cases hfile : s.file with
          | none =>
              rw [monitorSyslog_absent hfile] at hn ⊢
              exact h n hn
          | some content =>
              rcases monitorSyslog_fresh hfile with ⟨hkept, hfresh, hpos⟩
              exists content
              rw [hkept, hfresh]
              refine ⟨by simp [streamOf], ?_⟩
              rw [hpos, Option.some.injEq] at hn
              rw [← hn]
              cases hsaved : s.syslogPos with
              | none => rfl
              | some m =>
                  rcases h m hsaved with ⟨old, hcontent, hold⟩
                  rw [hfile, Option.some.injEq] at hcontent
                  rw [hcontent, List.length_append, hold]
                  exact (Nat.max_eq_right (Nat.le_add_right m _)).symm
    · intro n hn
      cases hn
  cases hpos : t.syslogPos with
  | none => exact overrun_unopened hpos
  | some n =>
      rcases hexact n hpos with ⟨old, hfile, hold⟩
      unfold overrun
      rw [hfile, hpos]
      simp only [List.length_append]
      omega

/-- The alarms are passed on exactly as long as no saved offset lies beyond them,
and so in every run that leaves the opened file in its place. -/
theorem monitorSyslog_passes {evs : List SyslogEvent}
    (hlines : forall b, SyslogEvent.append b ∈ evs -> Readable b) :
    (PassesAlarms evs <->
      StepsMeet syslogStep syslogStart evs SparesAlarms) ∧
    (StepsMeet syslogStep syslogStart evs NotRotated -> PassesAlarms evs) := by
  have hiff := passesAlarms_iff_spares hlines
  refine ⟨hiff, fun hmeet => hiff.mpr ?_⟩
  intro pre e post s hevs hrun _
  rw [hevs] at hmeet
  rw [overrun_of_notRotated hmeet.of_append hrun]
  exact sparesAlarms_zero _

def diskAlarm : List Char := "kern.err ata1: failed".toList

def alarmRun : List SyslogEvent :=
  [.rotate, .append "up".toList, .poll, .append diskAlarm, .poll]

theorem alarmRun_passes :
    PassesAlarms alarmRun ∧
      StepsMeet syslogStep syslogStart alarmRun SparesAlarms := by
  have hlines : forall b, SyslogEvent.append b ∈ alarmRun -> Readable b := by
    intro b hb
    simp only [alarmRun, List.mem_cons, SyslogEvent.append.injEq, reduceCtorEq,
      List.not_mem_nil, false_or, or_false] at hb
    rcases hb with heq | heq
    · rw [heq]
      decide
    · rw [heq]
      decide
  have hpasses := (monitorSyslog_passes hlines).right
    (stepsMeet_of_check (by decide +kernel))
  exact ⟨hpasses, (monitorSyslog_passes hlines).left.mp hpasses⟩

/-- The file is replaced between two polls, and its first line is shorter than the
old file was. -/
def rotatedRun : List SyslogEvent :=
  [.rotate, .append (List.replicate 30 'a'), .poll, .rotate,
    .append diskAlarm, .poll]

def nulRun : List SyslogEvent :=
  [.rotate, .poll, .append (NUL :: diskAlarm), .poll]

def longLine : List Char :=
  List.replicate BUFSIZ 'a' ++ diskAlarm

theorem not_passesAlarms_of_run (pre : List SyslogEvent) {s : Syslog}
    (hrun : runFrom syslogStep syslogStart pre = some s)
    (hopened : s.syslogPos ≠ none)
    (hpassed : (monitorSyslog s).passed ≠ s.passed ++ due s.fresh) :
    ¬ PassesAlarms (pre ++ [.poll]) :=
  fun hall => hpassed (hall pre [] s rfl hrun hopened)

theorem not_passesAlarms_of_long {body : List Char} (hend : '\n' ∉ body)
    (halarm : alarms body = true) (htext : lineText body = body)
    (hlong : BUFSIZ ≤ body.length) :
    ¬ PassesAlarms [.rotate, .poll, .append body, .poll] := by
  have hrun : runFrom syslogStep syslogStart [.rotate, .poll, .append body] =
      some
        { file := some (lineOf body)
          syslogPos := some 0
          passed := []
          fresh := [body] } := by
    have hpoll : monitorSyslog { syslogStart with file := some [] } =
        { syslogStart with file := some [], syslogPos := some 0 } := rfl
    simp [runFrom, syslogStep, hend, syslogStart] at hpoll ⊢
    simp [hpoll]
  refine not_passesAlarms_of_run _ hrun (by simp) ?_
  intro hpassed
  have hin : body ∈ (monitorSyslog
      { file := some (lineOf body)
        syslogPos := some 0
        passed := []
        fresh := [body] }).passed := by
    rw [hpassed]
    simp [due, halarm, htext]
  have hread : body ∈ List.filter alarms
      ((tailFrom BUFSIZ (some 0) (lineOf body)).1.map
        fun buf => trim (cstr buf)) := hin
  rcases List.mem_map.mp (List.mem_filter.mp hread).left
    with ⟨piece, hpiece, heq⟩
  have hpiece_length := tailFrom_length hpiece
  have htrim := trim_length_le (cstr piece)
  have hcstr := (cstr_isInfix piece).length_le
  rw [heq] at htrim
  have hbuf : BUFSIZ = 8192 := rfl
  omega

theorem longLine_text : lineText longLine = longLine := by
  have hnul : NUL ∉ longLine := by
    intro h
    rcases List.mem_append.mp h with hfront | hback
    · cases (List.mem_replicate.mp hfront).right
    · exact absurd hback (by decide)
  have hfront : (lineOf longLine).dropWhile isBlank = lineOf longLine := by
    have hbuf : BUFSIZ = 8191 + 1 := rfl
    unfold longLine lineOf
    rw [hbuf, List.replicate_succ, List.cons_append, List.cons_append]
    exact List.dropWhile_cons_of_neg (by decide)
  have hback : longLine =
      (List.replicate BUFSIZ 'a' ++ diskAlarm.dropLast) ++ ['d'] := by
    have hend : diskAlarm = diskAlarm.dropLast ++ ['d'] := by decide
    unfold longLine
    conv => lhs; rw [hend, ← List.append_assoc]
  rw [lineText_of_readable hnul]
  unfold trim
  rw [hfront, lineOf, List.rdropWhile_concat_pos _ _ _ (by decide), hback]
  exact List.rdropWhile_concat_neg _ _ _ (by decide)

theorem rotatedRun_loses :
    ¬ PassesAlarms rotatedRun ∧ ¬ PassesAlarms nulRun ∧
      ¬ PassesAlarms [.rotate, .poll, .append longLine, .poll] := by
  refine ⟨?_, ?_, ?_⟩
  · exact not_passesAlarms_of_run
      [.rotate, .append (List.replicate 30 'a'), .poll, .rotate,
        .append diskAlarm] rfl (by decide) (by decide)
  · exact not_passesAlarms_of_run
      [.rotate, .poll, .append (NUL :: diskAlarm)] rfl (by decide) (by decide)
  · have hend : '\n' ∉ longLine := by
      intro h
      rcases List.mem_append.mp h with hfront | hback
      · cases (List.mem_replicate.mp hfront).right
      · exact absurd hback (by decide)
    have halarm : alarms longLine = true :=
      alarms_of_isInfix (List.suffix_append _ _).isInfix
        (show alarms diskAlarm = true by decide)
    refine not_passesAlarms_of_long hend halarm longLine_text ?_
    unfold longLine
    rw [List.length_append, List.length_replicate]
    exact Nat.le_add_right _ _

end Monitor
end Breakin
