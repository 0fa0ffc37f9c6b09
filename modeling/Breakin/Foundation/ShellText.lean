import Mathlib.Data.List.Chain
import Breakin.Foundation.CString

/-!
# Sourcing assignments

How a POSIX shell reads a file of lines `NAME="..."`.  Inside the quotes a
double quote ends the word, a backquote or `$(` starts a command, `$` in front
of a name, a special parameter or `{` is expanded, and a backslash keeps its
meaning in front of `$`, the backquote, `"`, `\` and the newline only.  A `$` in
front of anything else stands for itself.
-/

namespace Breakin
namespace Foundation

def BACKQUOTE : Char := Char.ofNat 96

def escapable (c : Char) : Bool :=
  c == '"' || c == '\\' || c == '$' || c == BACKQUOTE

def startsExpansion (c : Char) : Bool :=
  c.isAlphanum || "_(\x7b@*#?-$!".toList.contains c

def nameChar (c : Char) : Bool :=
  c.isAlphanum || c == '_'

def validStart (name : CString) : Bool :=
  match name with
  | [] => false
  | c :: _ => !c.isDigit

/-- Why a file is more than assignments of fixed text. -/
inductive Stop where
  /-- a command is run -/
  | command
  /-- a parameter is expanded -/
  | expansion
  /-- the value is not one quoted word -/
  | otherWord
  /-- the file ends inside an assignment -/
  | unfinished
deriving DecidableEq

inductive Mode where
  | name (var : CString)
  /-- behind the `=` -/
  | equals (var : CString)
  | quoted (var value : CString)
  | backslash (var value : CString)
  | dollar (var value : CString)
  /-- behind the closing quote -/
  | closed (var value : CString)
  | stopped (why : Stop)
deriving DecidableEq

structure Reader where
  made : List (CString × CString)
  mode : Mode
deriving DecidableEq

def quotedStep (var value : CString) (c : Char) : Mode :=
  if c = '"' then .closed var value
  else if c = '\\' then .backslash var value
  else if c = '$' then .dollar var value
  else if c = BACKQUOTE then .stopped .command
  else .quoted var (value ++ [c])

def nameStep (var : CString) (c : Char) : Mode :=
  if c = '=' then
    if validStart var then .equals var else .stopped .command
  else if nameChar c then .name (var ++ [c])
  else if c = '\n' ∧ var = [] then .name []
  else .stopped .command

def Mode.step (m : Mode) (c : Char) : Mode :=
  match m with
  | .name var => nameStep var c
  | .equals var => if c = '"' then .quoted var [] else .stopped .otherWord
  | .quoted var value => quotedStep var value c
  | .backslash var value =>
      if c = '\n' then .quoted var value
      else if escapable c then .quoted var (value ++ [c])
      else .quoted var (value ++ ['\\', c])
  | .dollar var value =>
      if c = '(' then .stopped .command
      else if startsExpansion c then .stopped .expansion
      else quotedStep var (value ++ ['$']) c
  | .closed _ _ => if c = '\n' then .name [] else .stopped .otherWord
  | .stopped why => .stopped why

def Reader.step (r : Reader) (c : Char) : Reader :=
  match r.mode with
  | .closed var value =>
      { made := if c = '\n' then r.made ++ [(var, value)] else r.made
        mode := r.mode.step c }
  | _ => { r with mode := r.mode.step c }

def Reader.run (r : Reader) (text : CString) : Reader :=
  text.foldl Reader.step r

def source (text : CString) : Except Stop (List (CString × CString)) :=
  let r := Reader.run { made := [], mode := .name [] } text
  match r.mode with
  | .name [] => .ok r.made
  | .name _ => .error .command
  | .stopped why => .error why
  | _ => .error .unfinished

/-- `NAME="value"` and a newline, without any escapes. -/
def assignLine (entry : CString × CString) : CString :=
  entry.1 ++ '=' :: '"' :: (entry.2 ++ ['"', '\n'])

structure IsName (name : CString) : Prop where
  start : validStart name = true
  chars : forall c, c ∈ name -> nameChar c = true

theorem isName_iff (name : CString) :
    (validStart name && name.all nameChar) = true <-> IsName name := by
  rw [Bool.and_eq_true, List.all_eq_true]
  exact ⟨fun h => ⟨h.left, h.right⟩, fun h => ⟨h.start, h.chars⟩⟩

instance (name : CString) : Decidable (IsName name) :=
  decidable_of_iff _ (isName_iff name)

def Special (a b : Char) : Prop :=
  (a = '\\' ∧ (escapable b = true ∨ b = '\n')) ∨
    (a = '$' ∧ startsExpansion b = true)

instance (a b : Char) : Decidable (Special a b) :=
  inferInstanceAs (Decidable (_ ∨ _))

/-- A value that stands for itself between double quotes: it has no double quote
and no backquote, no `$` in front of something it would expand, and no backslash
in front of something it would escape, the closing quote included. -/
structure Inert (value : CString) : Prop where
  noQuote : '"' ∉ value
  noBackquote : BACKQUOTE ∉ value
  pairs : List.IsChain (fun a b => ¬ Special a b) (value ++ ['"'])

/-!
# Values that stand for themselves
-/

theorem escapable_false {c : Char} (h : escapable c = false) :
    c ≠ '"' ∧ c ≠ '\\' ∧ c ≠ '$' ∧ c ≠ BACKQUOTE := by
  simpa [escapable, and_assoc] using h

theorem quotedStep_plain {c : Char} (h : escapable c = false)
    (var value : CString) :
    quotedStep var value c = .quoted var (value ++ [c]) := by
  rcases escapable_false h with ⟨hquote, hslash, hdollar, hback⟩
  unfold quotedStep
  rw [if_neg hquote, if_neg hslash, if_neg hdollar, if_neg hback]

theorem backslash_step {c : Char} (h : ¬ Special '\\' c) (var value : CString) :
    (Mode.backslash var value).step c = quotedStep var (value ++ ['\\']) c := by
  have hnot : escapable c = false ∧ c ≠ '\n' := by
    simpa [Special] using h
  rw [quotedStep_plain hnot.left]
  simp [Mode.step, hnot]

theorem dollar_step {c : Char} (h : ¬ Special '$' c) (var value : CString) :
    (Mode.dollar var value).step c = quotedStep var (value ++ ['$']) c := by
  have hnot : startsExpansion c = false := by
    simpa [Special] using h
  have hparen : c ≠ '(' := by
    rintro rfl
    exact absurd hnot (by decide)
  simp [Mode.step, hnot, hparen]

theorem Inert.tail {c : Char} {value : CString} (h : Inert (c :: value)) :
    Inert value where
  noQuote := fun hmem => h.noQuote (List.mem_cons_of_mem c hmem)
  noBackquote := fun hmem => h.noBackquote (List.mem_cons_of_mem c hmem)
  pairs := by
    have hpairs := h.pairs
    rw [List.cons_append] at hpairs
    exact hpairs.tail

def Quiet (c : Char) : Prop :=
  escapable c = false

theorem inert_of_quiet {value : CString} (h : forall c, c ∈ value -> Quiet c) :
    Inert value where
  noQuote := fun hmem => (escapable_false (h _ hmem)).left rfl
  noBackquote := fun hmem => (escapable_false (h _ hmem)).right.right.right rfl
  pairs := by
    apply List.Pairwise.isChain
    apply List.pairwise_of_forall_mem_list
    intro a ha b _ hspecial
    have hquiet : a ≠ '\\' ∧ a ≠ '$' := by
      rcases List.mem_append.mp ha with hmem | hlast
      · have hall := escapable_false (h a hmem)
        exact ⟨hall.right.left, hall.right.right.left⟩
      · rw [List.mem_singleton.mp hlast]
        decide
    rcases hspecial with ⟨heq, _⟩ | ⟨heq, _⟩
    · exact hquiet.left heq
    · exact hquiet.right heq

section Run

variable {made : List (CString × CString)} {var value : CString}

@[simp] theorem run_nil (r : Reader) : r.run [] = r := rfl

@[simp] theorem run_cons (r : Reader) (c : Char) (text : CString) :
    r.run (c :: text) = (r.step c).run text := rfl

theorem run_append (r : Reader) (front text : CString) :
    r.run (front ++ text) = (r.run front).run text :=
  List.foldl_append

@[simp] theorem step_name (c : Char) :
    Reader.step { made := made, mode := .name var } c =
      { made := made, mode := nameStep var c } := rfl

@[simp] theorem step_quoted (c : Char) :
    Reader.step { made := made, mode := .quoted var value } c =
      { made := made, mode := quotedStep var value c } := rfl

@[simp] theorem step_backslash (c : Char) :
    Reader.step { made := made, mode := .backslash var value } c =
      { made := made, mode := (Mode.backslash var value).step c } := rfl

@[simp] theorem step_dollar (c : Char) :
    Reader.step { made := made, mode := .dollar var value } c =
      { made := made, mode := (Mode.dollar var value).step c } := rfl

/-- An inert value comes out of its quotes as it went in. -/
theorem run_inert {text : CString} (h : Inert text) :
    Reader.run { made := made, mode := .quoted var value } (text ++ ['"']) =
      { made := made, mode := .closed var (value ++ text) } := by
  induction text generalizing value with
  | nil =>
      rw [List.append_nil]
      rfl
  | cons c text ih =>
      have hrest := @ih (value ++ [c]) h.tail
      rw [List.append_assoc, List.singleton_append] at hrest
      rw [← hrest, List.cons_append, run_cons, step_quoted]
      have hpairs := h.pairs
      rw [List.cons_append] at hpairs
      -- the character that a backslash or a dollar sign looks at
      cases hnext : text ++ ['"'] with
      | nil => simp at hnext
      | cons d after =>
          rw [hnext] at hpairs
          have hpair : ¬ Special c d := (List.isChain_cons_cons.mp hpairs).left
          by_cases hslash : c = '\\'
          · rw [hslash] at hpair ⊢
            rw [run_cons, run_cons, step_quoted, ← backslash_step hpair]
            rfl
          · by_cases hdollar : c = '$'
            · rw [hdollar] at hpair ⊢
              rw [run_cons, run_cons, step_quoted, ← dollar_step hpair]
              rfl
            · have hquote : c ≠ '"' := fun heq =>
                h.noQuote (heq ▸ List.mem_cons_self)
              have hback : c ≠ BACKQUOTE := fun heq =>
                h.noBackquote (heq ▸ List.mem_cons_self)
              rw [quotedStep_plain (by
                simp [escapable, hquote, hslash, hdollar, hback])]

theorem run_chars {name : CString} (h : forall c, c ∈ name -> nameChar c = true) :
    Reader.run { made := made, mode := .name var } name =
      { made := made, mode := .name (var ++ name) } := by
  induction name generalizing var with
  | nil => simp
  | cons c name ih =>
      have hc : nameChar c = true := h c List.mem_cons_self
      have hne : c ≠ '=' := by
        rintro rfl
        exact absurd hc (by decide)
      have hstep : nameStep var c = .name (var ++ [c]) := by
        unfold nameStep
        rw [if_neg hne, if_pos hc]
      rw [run_cons, step_name, hstep,
        ih fun c' hc' => h c' (List.mem_cons_of_mem c hc'),
        List.append_assoc, List.singleton_append]

theorem run_name {name : CString} (h : IsName name) :
    Reader.run { made := made, mode := .name [] } (name ++ ['=', '"']) =
      { made := made, mode := .quoted name [] } := by
  rw [run_append, run_chars h.chars, List.nil_append]
  have hstep : nameStep name '=' = .equals name := by
    unfold nameStep
    rw [if_pos rfl, if_pos h.start]
  rw [run_cons, step_name, hstep]
  rfl

theorem run_assignLine {name : CString} (hname : IsName name)
    (hvalue : Inert value) :
    Reader.run { made := made, mode := .name [] } (assignLine (name, value)) =
      { made := made ++ [(name, value)], mode := .name [] } := by
  have hline : assignLine (name, value) =
      (name ++ ['=', '"']) ++ ((value ++ ['"']) ++ ['\n']) := by
    simp [assignLine]
  rw [hline, run_append, run_name hname, run_append, run_inert hvalue]
  rfl

end Run

/-!
# What the shell takes away

Whatever the shell removes makes the value shorter than the characters it was
read from.  A double quote in the value can only come from one that a backslash
escaped, further back in the text.
-/

def QuotesEarlier (raw value : CString) : Prop :=
  forall front, front ++ ['"'] <+: raw ->
    exists front', front' ++ ['"'] <+: value ∧ front'.length < front.length

structure Behind (raw value : CString) : Prop where
  shorter : value.length < raw.length
  earlier : QuotesEarlier raw value

/-- The characters read, with `next` to come, stand for themselves. -/
structure Literal (raw : CString) (next : Char) : Prop where
  noQuote : '"' ∉ raw
  noBackquote : BACKQUOTE ∉ raw
  pairs : List.IsChain (fun a b => ¬ Special a b) (raw ++ [next])

def Keeping (raw value : CString) (next : Char) : Prop :=
  (value = raw ∧ Literal raw next) ∨ Behind raw value

theorem QuotesEarlier.snoc {raw value : CString} {c : Char} (hc : c ≠ '"')
    (h : QuotesEarlier raw value) : QuotesEarlier (raw ++ [c]) value := by
  intro front hfront
  rcases List.prefix_concat_iff.mp hfront with heq | hbefore
  · have hlast := congrArg List.getLast? heq
    simp only [List.getLast?_concat, Option.some.injEq] at hlast
    exact absurd hlast.symm hc
  · exact h front hbefore

theorem QuotesEarlier.more {raw value : CString} (h : QuotesEarlier raw value)
    (extra : CString) : QuotesEarlier raw (value ++ extra) := by
  intro front hfront
  rcases h front hfront with ⟨front', hbefore, hlength⟩
  exact ⟨front', hbefore.trans (List.prefix_append value extra), hlength⟩

theorem QuotesEarlier.quote {raw value : CString} (h : QuotesEarlier raw value)
    (hlength : value.length < raw.length) :
    QuotesEarlier (raw ++ ['"']) (value ++ ['"']) := by
  intro front hfront
  rcases List.prefix_concat_iff.mp hfront with heq | hbefore
  · have hfrontEq : front = raw := List.append_cancel_right heq
    exact ⟨value, List.prefix_rfl, hfrontEq ▸ hlength⟩
  · exact h.more ['"'] front hbefore

theorem Literal.quotesEarlier {raw : CString} {c : Char} (h : Literal raw c)
    (value : CString) : QuotesEarlier raw value := by
  intro front hfront
  exact absurd (hfront.subset (by simp)) h.noQuote

theorem Keeping.length_le {raw value : CString} {c : Char}
    (h : Keeping raw value c) : value.length ≤ raw.length := by
  rcases h with ⟨heq, _⟩ | hbehind
  · rw [heq]
  · exact Nat.le_of_lt hbehind.shorter

theorem Keeping.quotesEarlier {raw value : CString} {c : Char}
    (h : Keeping raw value c) : QuotesEarlier raw value := by
  rcases h with ⟨_, hliteral⟩ | hbehind
  · exact hliteral.quotesEarlier value
  · exact hbehind.earlier

theorem Keeping.keep {raw value : CString} {c d : Char} (hquote : c ≠ '"')
    (hback : c ≠ BACKQUOTE) (hpair : ¬ Special c d) (h : Keeping raw value c) :
    Keeping (raw ++ [c]) (value ++ [c]) d := by
  rcases h with ⟨heq, hliteral⟩ | hbehind
  · left
    refine ⟨by rw [heq], ?_, ?_, ?_⟩
    · simp [hliteral.noQuote, Ne.symm hquote]
    · simp [hliteral.noBackquote, Ne.symm hback]
    · rw [List.append_assoc, List.singleton_append,
        List.isChain_append_cons_cons]
      exact ⟨hliteral.pairs, hpair, List.isChain_singleton d⟩
  · right
    refine ⟨by simp [hbehind.shorter], ?_⟩
    exact (hbehind.earlier.snoc hquote).more [c]

theorem Keeping.escape {raw value : CString} (c d : Char)
    (h : Keeping raw value '\\') :
    Keeping (raw ++ ['\\'] ++ [c]) (value ++ [c]) d := by
  have hlength := h.length_le
  have hshorter : value.length < (raw ++ ['\\']).length := by
    rw [List.length_append, List.length_singleton]
    omega
  have hearlier : QuotesEarlier (raw ++ ['\\']) value :=
    h.quotesEarlier.snoc (by decide)
  right
  constructor
  · simp only [List.length_append, List.length_singleton] at hshorter ⊢
    omega
  · by_cases hquote : c = '"'
    · rw [hquote]
      exact hearlier.quote hshorter
    · exact (hearlier.snoc hquote).more [c]

theorem Keeping.join {raw value : CString} (d : Char)
    (h : Keeping raw value '\\') :
    Keeping (raw ++ ['\\'] ++ ['\n']) value d := by
  have hlength := h.length_le
  right
  constructor
  · simp only [List.length_append, List.length_singleton]
    omega
  · exact (h.quotesEarlier.snoc (by decide)).snoc (by decide)

/-!
# Reading one value
-/

/-- Inside the value of `var`, with the characters `raw` behind its opening
quote. -/
def Reads (var raw : CString) : Mode -> Prop
  | .quoted var' value => var' = var ∧ forall c, Keeping raw value c
  | .backslash var' value =>
      var' = var ∧ exists front, raw = front ++ ['\\'] ∧ Keeping front value '\\'
  | .dollar var' value =>
      var' = var ∧ exists front, raw = front ++ ['$'] ∧ Keeping front value '$'
  | .closed var' value =>
      var' = var ∧ exists front, raw = front ++ ['"'] ∧ Keeping front value '"'
  | .stopped _ => True
  | .name _ => False
  | .equals _ => False

theorem reads_quotedStep {raw value : CString} {c : Char}
    (h : Keeping raw value c) (var : CString) :
    Reads var (raw ++ [c]) (quotedStep var value c) := by
  unfold quotedStep
  split_ifs with hquote hslash hdollar hback
  · exact ⟨rfl, raw, by rw [hquote], hquote ▸ h⟩
  · exact ⟨rfl, raw, by rw [hslash], hslash ▸ h⟩
  · exact ⟨rfl, raw, by rw [hdollar], hdollar ▸ h⟩
  · trivial
  · refine ⟨rfl, fun d => h.keep hquote hback ?_⟩
    simp [Special, hslash, hdollar]

theorem reads_step {var raw : CString} {m : Mode} (h : Reads var raw m)
    (hopen : forall var' value, m ≠ .closed var' value) (c : Char) :
    Reads var (raw ++ [c]) (m.step c) := by
  cases m with
  | name var' => cases h
  | equals var' => cases h
  | quoted var' value =>
      rcases h with ⟨rfl, hkeep⟩
      exact reads_quotedStep (hkeep c) var'
  | backslash var' value =>
      rcases h with ⟨rfl, front, rfl, hkeep⟩
      by_cases hpair : Special '\\' c
      · by_cases hnewline : c = '\n'
        · rw [hnewline]
          exact ⟨rfl, hkeep.join⟩
        · have hescape : escapable c = true := by
            simpa [Special, hnewline] using hpair
          simp only [Mode.step, if_neg hnewline, if_pos hescape]
          exact ⟨rfl, fun d => hkeep.escape c d⟩
      · rw [backslash_step hpair]
        exact reads_quotedStep (hkeep.keep (by decide) (by decide) hpair) var'
  | dollar var' value =>
      rcases h with ⟨rfl, front, rfl, hkeep⟩
      by_cases hpair : Special '$' c
      · have hstart : startsExpansion c = true := by
          simpa [Special] using hpair
        simp only [Mode.step, if_pos hstart]
        split_ifs
        · trivial
        · trivial
      · rw [dollar_step hpair]
        exact reads_quotedStep (hkeep.keep (by decide) (by decide) hpair) var'
  | closed var' value => exact absurd rfl (hopen var' value)
  | stopped why => trivial

theorem made_step (r : Reader) (c : Char) : r.made <+: (r.step c).made := by
  unfold Reader.step
  split
  · split_ifs
    · exact List.prefix_append _ _
    · exact List.prefix_rfl
  · exact List.prefix_rfl

theorem made_run (r : Reader) (text : CString) :
    r.made <+: (r.run text).made := by
  induction text generalizing r with
  | nil => exact List.prefix_rfl
  | cons c text ih => exact (made_step r c).trans (ih (r.step c))

theorem run_stopped (made : List (CString × CString)) (why : Stop)
    (text : CString) :
    Reader.run { made := made, mode := .stopped why } text =
      { made := made, mode := .stopped why } := by
  induction text with
  | nil => rfl
  | cons c text ih => exact ih

theorem run_reads {var raw text : CString} {m : Mode}
    {made more : List (CString × CString)} {entry : CString × CString}
    (h : Reads var raw m)
    (hmade : (Reader.run { made := made, mode := m } text).made =
      made ++ entry :: more) :
    exists front rest, raw ++ text = front ++ '"' :: rest ∧
      Keeping front entry.2 '"' := by
  induction text generalizing raw m with
  | nil => simp at hmade
  | cons c text ih =>
      by_cases hclosed : exists var' value, m = .closed var' value
      · rcases hclosed with ⟨var', value, rfl⟩
        rcases h with ⟨_, front, rfl, hkeep⟩
        refine ⟨front, c :: text, by simp, ?_⟩
        by_cases hnewline : c = '\n'
        · have hgrow := made_run
            { made := made ++ [(var', value)], mode := .name [] } text
          rw [hnewline] at hmade
          have hsame : (Reader.run
              { made := made ++ [(var', value)], mode := .name [] } text).made =
                made ++ entry :: more := hmade
          rw [hsame, List.prefix_append_right_inj] at hgrow
          have hentry : (var', value) = entry := by
            simpa using hgrow
          rw [← hentry]
          exact hkeep
        · have hstop : Reader.step
              { made := made, mode := .closed var' value } c =
                { made := made, mode := .stopped .otherWord } := by
            simp [Reader.step, Mode.step, hnewline]
          rw [run_cons, hstop, run_stopped] at hmade
          simp at hmade
      · have hopen : forall var' value, m ≠ .closed var' value :=
          fun var' value heq => hclosed ⟨var', value, heq⟩
        have hstep : Reader.step { made := made, mode := m } c =
            { made := made, mode := m.step c } := by
          cases m with
          | closed var' value => exact absurd rfl (hopen var' value)
          | _ => rfl
        rw [run_cons, hstep] at hmade
        rcases ih (reads_step h hopen c) hmade with ⟨front, rest, heq, hkeep⟩
        refine ⟨front, rest, ?_, hkeep⟩
        rw [← heq, List.append_assoc, List.singleton_append]

theorem QuotesEarlier.no_quote {raw value : CString}
    (h : QuotesEarlier raw value) (hbefore : value <+: raw) : '"' ∉ raw := by
  have hnone : forall (n : Nat) (front : CString), front.length < n ->
      ¬ front ++ ['"'] <+: raw := by
    intro n
    induction n with
    | zero => intro front hlength; omega
    | succ n ih =>
        intro front hlength hfront
        rcases h front hfront with ⟨front', hfront', hshorter⟩
        exact ih front' (by omega) (hfront'.trans hbefore)
  intro hmem
  rcases List.append_of_mem hmem with ⟨front, rest, heq⟩
  exact hnone (front.length + 1) front (Nat.lt_succ_self _)
    ⟨rest, by rw [heq]; simp⟩

/-- A value that is read back from its own line is inert. -/
theorem inert_of_keeping {value front after rest : CString}
    (htext : value ++ '"' :: after = front ++ '"' :: rest)
    (h : Keeping front value '"') : Inert value := by
  rcases h with ⟨heq, hliteral⟩ | hbehind
  · rw [heq]
    exact ⟨hliteral.noQuote, hliteral.noBackquote, hliteral.pairs⟩
  · exfalso
    have hwhole : value ++ ['"'] <+: front ++ '"' :: rest :=
      ⟨after, by rw [← htext]; simp⟩
    have hquoted : value ++ ['"'] <+: front := by
      apply List.prefix_of_prefix_length_le hwhole (List.prefix_append _ _)
      simp only [List.length_append, List.length_singleton]
      exact hbehind.shorter
    have hnone := hbehind.earlier.no_quote
      ((List.prefix_append value ['"']).trans hquoted)
    exact hnone (hquoted.subset (by simp))

/-!
# Reading a file of assignments
-/

def Agrees (printed held : CString × CString) : Prop :=
  printed.1 = held.1 ∧ (printed.2 = held.2 ∨ Inert printed.2)

theorem run_assignLines {printed held made : List (CString × CString)}
    (hnames : forall e, e ∈ printed -> IsName e.1)
    (h : List.Forall₂ Agrees printed held)
    (hmade : (Reader.run { made := made, mode := .name [] }
      (printed.flatMap assignLine)).made = made ++ held) :
    printed = held ∧ forall e, e ∈ printed -> Inert e.2 := by
  induction h generalizing made with
  | nil => simp
  | @cons p e printed held hagree hrest ih =>
      have hname := hnames p List.mem_cons_self
      rw [List.flatMap_cons, run_append] at hmade
      have hinert : Inert p.2 := by
        rcases hagree.right with hsame | hinert
        · have hline : assignLine p ++ printed.flatMap assignLine =
              (p.1 ++ ['=', '"']) ++ (p.2 ++ '"' :: '\n' ::
                printed.flatMap assignLine) := by
            simp [assignLine]
          rw [← run_append, hline, run_append, run_name hname] at hmade
          have hstart : Reads p.1 [] (.quoted p.1 []) :=
            ⟨rfl, fun c => Or.inl ⟨rfl, by simp, by simp,
              List.isChain_singleton c⟩⟩
          rcases run_reads hstart hmade with ⟨front, rest, htext, hkeep⟩
          rw [← hsame] at hkeep
          exact inert_of_keeping htext hkeep
        · exact hinert
      rw [show p = (p.1, p.2) from rfl, run_assignLine hname hinert] at hmade
      have hgrow := made_run { made := made ++ [(p.1, p.2)], mode := .name [] }
        (printed.flatMap assignLine)
      rw [hmade, List.prefix_append_right_inj] at hgrow
      have hentry : p = e := by
        simpa using hgrow
      have hnext : made ++ e :: held = made ++ [(p.1, p.2)] ++ held := by
        rw [← hentry, List.append_assoc]
        rfl
      rw [hnext] at hmade
      rcases ih (fun e' he' => hnames e' (List.mem_cons_of_mem p he')) hmade with
        ⟨heq, hall⟩
      refine ⟨by rw [hentry, heq], ?_⟩
      intro e' he'
      rcases List.mem_cons.mp he' with rfl | hmem
      · exact hinert
      · exact hall e' hmem

theorem run_inertLines {entries made : List (CString × CString)}
    (hnames : forall e, e ∈ entries -> IsName e.1)
    (hvalues : forall e, e ∈ entries -> Inert e.2) :
    Reader.run { made := made, mode := .name [] } (entries.flatMap assignLine) =
      { made := made ++ entries, mode := .name [] } := by
  induction entries generalizing made with
  | nil => simp
  | cons e entries ih =>
      rw [List.flatMap_cons, run_append, show e = (e.1, e.2) from rfl,
        run_assignLine (hnames e List.mem_cons_self) (hvalues e List.mem_cons_self),
        ih (fun e' he' => hnames e' (List.mem_cons_of_mem e he'))
          (fun e' he' => hvalues e' (List.mem_cons_of_mem e he')),
        List.append_assoc, List.singleton_append]

theorem source_made {text : CString} {entries : List (CString × CString)}
    (h : source text = .ok entries) :
    (Reader.run { made := [], mode := .name [] } text).made = entries := by
  unfold source at h
  simp only at h
  split at h
  · exact Except.ok.inj h
  all_goals cases h

/-- Sourcing the printed lines makes exactly the assignments `held` when they are
the printed ones and every value is inert, and only then. -/
theorem source_eq_iff {printed held : List (CString × CString)}
    (hnames : forall e, e ∈ printed -> IsName e.1)
    (h : List.Forall₂ Agrees printed held) :
    source (printed.flatMap assignLine) = .ok held <->
      printed = held ∧ forall e, e ∈ printed -> Inert e.2 := by
  constructor
  · intro hsource
    exact run_assignLines hnames h (source_made hsource)
  · rintro ⟨rfl, hvalues⟩
    unfold source
    rw [run_inertLines hnames hvalues]
    rfl

end Foundation
end Breakin
