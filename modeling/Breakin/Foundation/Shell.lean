import Mathlib.Data.List.Basic

/-!
# Shell commands

A script is a function from the state of its shell to a state in which the shell
goes on or has exited.  The state is the script's own variables, the status of the
last command (`$?`) and the lines printed so far.
-/

namespace Breakin
namespace Foundation
namespace Shell

structure ShState (vars : Type) where
  vars : vars
  status : UInt8
  out : List (List Char)

inductive Flow (vars : Type) where
  | next (s : ShState vars)
  | exit (s : ShState vars)

abbrev Command (vars : Type) := ShState vars -> Flow vars

variable {vars item : Type}

/-- The exit status of the shell, by `exit` or after the last command. -/
def Flow.exitStatus : Flow vars -> UInt8
  | .next s => s.status
  | .exit s => s.status

def Flow.final : Flow vars -> ShState vars
  | .next s => s
  | .exit s => s

def assign (f : vars -> vars) : Command vars := fun s =>
  .next { s with vars := f s.vars, status := 0 }

/-- An assignment from `$?`. -/
def capture (f : vars -> UInt8 -> vars) : Command vars := fun s =>
  .next { s with vars := f s.vars s.status, status := 0 }

def external (code : vars -> UInt8) : Command vars := fun s =>
  .next { s with status := code s.vars }

def echo (text : vars -> List Char) : Command vars := fun s =>
  .next { s with status := 0, out := s.out ++ [text s.vars] }

def exit (code : vars -> UInt8) : Command vars := fun s =>
  .exit { s with status := code s.vars }

def seq (c d : Command vars) : Command vars := fun s =>
  match c s with
  | .next t => d t
  | .exit t => .exit t

def block : List (Command vars) -> Command vars
  | [] => fun s => .next s
  | c :: rest => seq c (block rest)

def ifElse (test : ShState vars -> Bool) (yes no : Command vars) :
    Command vars := fun s =>
  if test s then yes s else no s

/-- `if` without `else`: its status is 0 when the test fails. -/
def ifThen (test : ShState vars -> Bool) (body : Command vars) :
    Command vars :=
  ifElse test body (assign id)

def turns (items : List item) (body : item -> Command vars) : Command vars :=
  block (items.map body)

/-- `for`: its status is that of the last turn, or 0. -/
def forEach (items : List item) (body : item -> Command vars) :
    Command vars :=
  match items with
  | [] => assign id
  | _ :: _ => turns items body

theorem forEach_map {place : Type} (items : List place) (f : place -> item)
    (body : item -> Command vars) :
    forEach (items.map f) body = forEach items fun a => body (f a) := by
  cases items with
  | nil => rfl
  | cons a rest =>
      show block (((a :: rest).map f).map body) = block ((a :: rest).map fun a => body (f a))
      rw [List.map_map]
      rfl

/-- `I=0; while [ "${I}" -lt n ]; do body; I=...+1; done`. -/
def whileBelow (n : Nat) (body : Nat -> Command vars) : Command vars :=
  forEach (List.range n) body

/-!
# Rules
-/

theorem seq_of_next {c d : Command vars} {s t : ShState vars}
    (h : c s = .next t) : seq c d s = d t := by
  simp [seq, h]

theorem seq_of_exit {c d : Command vars} {s t : ShState vars}
    (h : c s = .exit t) : seq c d s = .exit t := by
  simp [seq, h]

/-- The command goes on from every state with `P` to a state with `Q`. -/
def Keeps (P : ShState vars -> Prop) (c : Command vars)
    (Q : ShState vars -> Prop) : Prop :=
  forall s, P s -> exists t, c s = .next t ∧ Q t

theorem Keeps.seq {P Q R : ShState vars -> Prop} {c d : Command vars}
    (hc : Keeps P c Q) (hd : Keeps Q d R) : Keeps P (seq c d) R := by
  intro s hs
  rcases hc s hs with ⟨t, ht, hQ⟩
  rcases hd t hQ with ⟨u, hu, hR⟩
  exact ⟨u, by rw [seq_of_next ht, hu], hR⟩

theorem keeps_assign {P Q : ShState vars -> Prop} {f : vars -> vars}
    (h : forall s, P s -> Q { s with vars := f s.vars, status := 0 }) :
    Keeps P (assign f) Q := fun s hs => ⟨_, rfl, h s hs⟩

theorem keeps_capture {P Q : ShState vars -> Prop} {f : vars -> UInt8 -> vars}
    (h : forall s, P s ->
      Q { s with vars := f s.vars s.status, status := 0 }) :
    Keeps P (capture f) Q := fun s hs => ⟨_, rfl, h s hs⟩

theorem keeps_external {P Q : ShState vars -> Prop} {code : vars -> UInt8}
    (h : forall s, P s -> Q { s with status := code s.vars }) :
    Keeps P (external code) Q := fun s hs => ⟨_, rfl, h s hs⟩

theorem keeps_echo {P Q : ShState vars -> Prop} {text : vars -> List Char}
    (h : forall s, P s ->
      Q { s with status := 0, out := s.out ++ [text s.vars] }) :
    Keeps P (echo text) Q := fun s hs => ⟨_, rfl, h s hs⟩

theorem keeps_block_nil {P : ShState vars -> Prop} :
    Keeps P (block []) P := fun s hs => ⟨s, rfl, hs⟩

theorem keeps_block_cons {P Q R : ShState vars -> Prop} {c : Command vars}
    {rest : List (Command vars)} (hc : Keeps P c Q)
    (hrest : Keeps Q (block rest) R) : Keeps P (block (c :: rest)) R :=
  hc.seq hrest

theorem block_exit {P : ShState vars -> Prop} {c : List (Command vars)}
    (code : vars -> UInt8) (hc : Keeps (fun _ => True) (block c) P)
    (s : ShState vars) :
    exists t, P t ∧
      (block (c ++ [exit code]) s).exitStatus = code t.vars := by
  have hrun : forall (c : List (Command vars)) (s t : ShState vars),
      block c s = .next t ->
        block (c ++ [exit code]) s = .exit { t with status := code t.vars } := by
    intro c
    induction c with
    | nil =>
        intro s t h
        cases h
        rfl
    | cons d rest ih =>
        intro s t h
        change Shell.seq d (block rest) s = .next t at h
        change Shell.seq d (block (rest ++ [exit code])) s = _
        cases hd : d s with
        | next u =>
            rw [seq_of_next hd] at h ⊢
            exact ih u t h
        | exit u =>
            rw [seq_of_exit hd] at h
            cases h
  rcases hc s trivial with ⟨t, ht, hP⟩
  exact ⟨t, hP, by rw [hrun c s t ht]; rfl⟩

theorem Keeps.ifElse {P Q : ShState vars -> Prop}
    {test : ShState vars -> Bool} {yes no : Command vars}
    (hyes : Keeps (fun s => P s ∧ test s = true) yes Q)
    (hno : Keeps (fun s => P s ∧ test s = false) no Q) :
    Keeps P (ifElse test yes no) Q := by
  intro s hs
  unfold Shell.ifElse
  cases htest : test s with
  | true => simpa [htest] using hyes s ⟨hs, htest⟩
  | false => simpa [htest] using hno s ⟨hs, htest⟩

theorem Keeps.ifThen {P Q : ShState vars -> Prop}
    {test : ShState vars -> Bool} {body : Command vars}
    (hbody : Keeps (fun s => P s ∧ test s = true) body Q)
    (hskip : forall s, P s -> test s = false -> Q { s with status := 0 }) :
    Keeps P (ifThen test body) Q :=
  Keeps.ifElse hbody (keeps_assign fun s hs => hskip s hs.left hs.right)

/-- The loop rule: `R done` speaks about the state after the items `done`. -/
theorem turns_keeps {R : List item -> ShState vars -> Prop}
    {body : item -> Command vars}
    (hbody : forall before a, Keeps (R before) (body a) (R (before ++ [a])))
    (before items : List item) :
    Keeps (R before) (turns items body) (R (before ++ items)) := by
  induction items generalizing before with
  | nil =>
      intro s hs
      exact ⟨s, rfl, by rw [List.append_nil]; exact hs⟩
  | cons a rest ih =>
      have hrest := ih (before ++ [a])
      rw [List.append_assoc] at hrest
      exact (hbody before a).seq hrest

theorem forEach_keeps {R : List item -> ShState vars -> Prop}
    {body : item -> Command vars} {items : List item}
    (hstatus : forall s, R [] s -> R [] { s with status := 0 })
    (hbody : forall before a, Keeps (R before) (body a) (R (before ++ [a]))) :
    Keeps (R []) (forEach items body) (R items) := by
  cases items with
  | nil =>
      intro s hs
      exact ⟨_, rfl, hstatus s hs⟩
  | cons a rest => exact turns_keeps hbody [] (a :: rest)

/-!
# Commands that may leave the script
-/

/-- From a state with `P` the command goes on with `Q` or leaves the script
with `E`. -/
def Ends (P : ShState vars -> Prop) (c : Command vars)
    (Q E : ShState vars -> Prop) : Prop :=
  forall s, P s -> (exists t, c s = .next t ∧ Q t) ∨ (exists t, c s = .exit t ∧ E t)

theorem Keeps.ends {P Q E : ShState vars -> Prop} {c : Command vars}
    (h : Keeps P c Q) : Ends P c Q E := fun s hs => Or.inl (h s hs)

theorem Ends.seq {P Q R E : ShState vars -> Prop} {c d : Command vars}
    (hc : Ends P c Q E) (hd : Ends Q d R E) : Ends P (seq c d) R E := by
  intro s hs
  rcases hc s hs with ⟨t, ht, hQ⟩ | ⟨t, ht, hE⟩
  · rw [seq_of_next ht]
    exact hd t hQ
  · exact Or.inr ⟨t, seq_of_exit ht, hE⟩

theorem ends_block_cons {P Q R E : ShState vars -> Prop} {c : Command vars}
    {rest : List (Command vars)} (hc : Ends P c Q E)
    (hrest : Ends Q (block rest) R E) : Ends P (block (c :: rest)) R E :=
  hc.seq hrest

theorem ends_exit {P E : ShState vars -> Prop} {Q : ShState vars -> Prop}
    {code : vars -> UInt8} (h : forall s, P s -> E { s with status := code s.vars }) :
    Ends P (exit code) Q E := fun s hs => Or.inr ⟨_, rfl, h s hs⟩

theorem ends_block_exit {P E : ShState vars -> Prop} {code : vars -> UInt8}
    (h : forall s, P s -> E { s with status := code s.vars }) :
    Ends P (block [exit code]) (fun _ => False) E :=
  ends_block_cons (ends_exit h) fun _ hfalse => absurd hfalse not_false

theorem Ends.ifElse {P Q E : ShState vars -> Prop}
    {test : ShState vars -> Bool} {yes no : Command vars}
    (hyes : Ends (fun s => P s ∧ test s = true) yes Q E)
    (hno : Ends (fun s => P s ∧ test s = false) no Q E) :
    Ends P (ifElse test yes no) Q E := by
  intro s hs
  unfold Shell.ifElse
  cases htest : test s with
  | true => simpa [htest] using hyes s ⟨hs, htest⟩
  | false => simpa [htest] using hno s ⟨hs, htest⟩

/-- The loop rule for a body that may leave the script. -/
theorem turns_ends {R : List item -> ShState vars -> Prop} {E : ShState vars -> Prop}
    {body : item -> Command vars} {before items all : List item}
    (hall : before ++ items = all)
    (hbody : forall before a, before ++ [a] <+: all ->
      Ends (R before) (body a) (R (before ++ [a])) E) :
    Ends (R before) (turns items body) (R all) E := by
  induction items generalizing before with
  | nil =>
      rw [List.append_nil] at hall
      rw [← hall]
      exact keeps_block_nil.ends
  | cons a rest ih =>
      have hsplit : before ++ [a] ++ rest = all := by
        rw [← hall, List.append_assoc]
        rfl
      exact (hbody before a ⟨rest, hsplit⟩).seq (ih hsplit)

theorem forEach_ends {R : List item -> ShState vars -> Prop} {E : ShState vars -> Prop}
    {body : item -> Command vars} {items : List item}
    (hstatus : forall s, R [] s -> R [] { s with status := 0 })
    (hbody : forall before a, before ++ [a] <+: items ->
      Ends (R before) (body a) (R (before ++ [a])) E) :
    Ends (R []) (forEach items body) (R items) E := by
  cases items with
  | nil =>
      intro s hs
      exact Or.inl ⟨_, rfl, hstatus s hs⟩
  | cons a rest => exact turns_ends rfl hbody

theorem Ends.final {P E : ShState vars -> Prop} {c : Command vars}
    (h : Ends P c (fun _ => False) E) {s : ShState vars} (hs : P s) :
    E (c s).final ∧ (c s).exitStatus = (c s).final.status := by
  rcases h s hs with ⟨t, _, hfalse⟩ | ⟨t, ht, hE⟩
  · exact absurd hfalse not_false
  · rw [ht]
    exact ⟨hE, rfl⟩

/-!
# Commands that always go on
-/

def GoesOn (c : Command vars) : Prop :=
  Keeps (fun _ => True) c fun _ => True

theorem goesOn_assign (f : vars -> vars) : GoesOn (assign f) :=
  keeps_assign fun _ _ => trivial

theorem goesOn_capture (f : vars -> UInt8 -> vars) : GoesOn (capture f) :=
  keeps_capture fun _ _ => trivial

theorem goesOn_external (code : vars -> UInt8) : GoesOn (external code) :=
  keeps_external fun _ _ => trivial

theorem goesOn_echo (text : vars -> List Char) : GoesOn (echo text) :=
  keeps_echo fun _ _ => trivial

theorem goesOn_nil : GoesOn (block ([] : List (Command vars))) :=
  keeps_block_nil

theorem goesOn_cons {c : Command vars} {rest : List (Command vars)}
    (hc : GoesOn c) (hrest : GoesOn (block rest)) : GoesOn (block (c :: rest)) :=
  keeps_block_cons hc hrest

theorem goesOn_ifElse {test : ShState vars -> Bool} {yes no : Command vars}
    (hyes : GoesOn yes) (hno : GoesOn no) : GoesOn (ifElse test yes no) :=
  Keeps.ifElse (fun s _ => hyes s trivial) fun s _ => hno s trivial

theorem goesOn_ifThen {test : ShState vars -> Bool} {body : Command vars}
    (h : GoesOn body) : GoesOn (ifThen test body) :=
  goesOn_ifElse h (goesOn_assign id)

theorem goesOn_whileBelow {body : Nat -> Command vars} (n : Nat)
    (h : forall i, GoesOn (body i)) : GoesOn (whileBelow n body) :=
  forEach_keeps (R := fun _ _ => True) (fun _ _ => trivial) fun _ i => h i

end Shell
end Foundation
end Breakin
