import Breakin.Foundation.Words

/-!
# Command line options

What the calls of `getopt_long` return one after the other.  Operands are passed
over, as the GNU version does by default; an option without an argument and one
with an argument are the only kinds, so that the option string has no `::` in it
and begins with none of `+`, `-` and `:`.
-/

namespace Breakin
namespace Foundation

structure LongOption where
  name : List Char
  hasArg : Bool
  val : Char
deriving DecidableEq

structure OptionTable where
  optstring : List Char
  long : List LongOption

/-- What one call returns, with `optarg`; `unknown` is `'?'`. -/
inductive Returned where
  | option (val : Char) (optarg : Option (List Char))
  | unknown
deriving DecidableEq

/-- What one word of the command line holds: nothing, the end of the options,
options, or options of which the last one takes the next word. -/
inductive Reading where
  | operand
  | endOfOptions
  | given (returned : List Returned)
  | wanting (returned : List Returned) (val : Char)
deriving DecidableEq

def Reading.add (r : Returned) : Reading -> Reading
  | .given returned => .given (r :: returned)
  | .wanting returned val => .wanting (r :: returned) val
  | other => other

/-- Whether a letter of the option string takes an argument; `none` for a letter
that is not in it. -/
def shortOption (optstring : List Char) (c : Char) : Option Bool :=
  if c = ':' || c = ';' then
    none
  else
    match optstring.dropWhile (· != c) with
    | [] => none
    | _ :: rest => some (rest.head? == some ':')

def readShort (optstring : List Char) : List Char -> Reading
  | [] => .given []
  | c :: rest =>
      match shortOption optstring c with
      | none => (readShort optstring rest).add .unknown
      | some false => (readShort optstring rest).add (.option c none)
      | some true =>
          match rest with
          | [] => .wanting [] c
          | _ :: _ => .given [.option c (some rest)]

def longOption (long : List LongOption) (name : List Char) : Option LongOption :=
  match long.find? (fun o => o.name == name) with
  | some o => some o
  | none =>
      match long.filter (fun o => name.isPrefixOf o.name) with
      | [] => none
      | o :: others =>
          if others.all (fun q => q.hasArg == o.hasArg && q.val == o.val) then
            some o
          else
            none

def readLong (long : List LongOption) (text : List Char) : Reading :=
  match longOption long (text.takeWhile (· != '=')),
      text.dropWhile (· != '=') with
  | none, _ => .given [.unknown]
  | some o, [] => if o.hasArg then .wanting [] o.val else .given [.option o.val none]
  | some o, _ :: value =>
      if o.hasArg then .given [.option o.val (some value)] else .given [.unknown]

def OptionTable.read (table : OptionTable) : List Char -> Reading
  | ['-', '-'] => .endOfOptions
  | '-' :: '-' :: text => readLong table.long text
  | '-' :: c :: rest => readShort table.optstring (c :: rest)
  | _ => .operand

def getoptLong (table : OptionTable) : List (List Char) -> List Returned
  | [] => []
  | word :: rest =>
      match table.read word with
      | .operand => getoptLong table rest
      | .endOfOptions => []
      | .given returned => returned ++ getoptLong table rest
      | .wanting returned val =>
          match rest with
          | [] => returned ++ [.unknown]
          | arg :: rest' =>
              returned ++ .option val (some arg) :: getoptLong table rest'

/-!
# Writing options

What a program may write so that the calls return given options.
-/

def Writes (table : OptionTable) (args : List (List Char))
    (returned : List Returned) : Prop :=
  forall rest, getoptLong table (args ++ rest) = returned ++ getoptLong table rest

namespace Writes

variable {table : OptionTable}

theorem nil : Writes table [] [] := fun _ => rfl

theorem append {args args' : List (List Char)} {returned returned' : List Returned}
    (h : Writes table args returned) (h' : Writes table args' returned') :
    Writes table (args ++ args') (returned ++ returned') := by
  intro rest
  rw [List.append_assoc, h, h', List.append_assoc]

theorem given {word : List Char} {returned : List Returned}
    (h : table.read word = .given returned) : Writes table [word] returned := by
  intro rest
  rw [List.singleton_append, getoptLong, h]

theorem wanting {word : List Char} {val : Char}
    (h : table.read word = .wanting [] val) (arg : List Char) :
    Writes table [word, arg] [.option val (some arg)] := by
  intro rest
  rw [List.cons_append, getoptLong, h]
  rfl

theorem whole {args : List (List Char)} {returned : List Returned}
    (h : Writes table args returned) : getoptLong table args = returned := by
  have hrest := h []
  rw [List.append_nil] at hrest
  rw [hrest]
  exact List.append_nil returned

end Writes

theorem Writes.joined {table : OptionTable} {name : List Char} {o : LongOption}
    (hfind : longOption table.long name = some o) (harg : o.hasArg = true)
    (hname : '=' ∉ name) (value : List Char) :
    Writes table ['-' :: '-' :: (name ++ '=' :: value)]
      [.option o.val (some value)] := by
  apply Writes.given
  rcases takeWhile_ne_append hname value with ⟨htake, hdrop⟩
  have hread : readLong table.long (name ++ '=' :: value) =
      .given [.option o.val (some value)] := by
    unfold readLong
    rw [htake, hdrop, hfind]
    simp only [harg, if_true]
  rw [← hread]
  -- the word is longer than `--`
  cases name with
  | nil => rfl
  | cons c name => rfl

/-!
# What is returned
-/

def OptionTable.Offers (table : OptionTable) : Returned -> Prop
  | .unknown => True
  | .option val optarg =>
      shortOption table.optstring val = some optarg.isSome ∨
        exists o, o ∈ table.long ∧ o.val = val ∧ o.hasArg = optarg.isSome

theorem shortOption_mem {optstring : List Char} {c : Char} {b : Bool}
    (h : shortOption optstring c = some b) : c ∈ optstring := by
  unfold shortOption at h
  split at h
  · cases h
  · split at h
    · cases h
    · rename_i c' rest hdrop
      have hmem : c' ∈ optstring :=
        (List.dropWhile_suffix _).subset (hdrop ▸ List.mem_cons_self)
      have hne : optstring.dropWhile (· != c) ≠ [] := hdrop ▸ List.cons_ne_nil c' rest
      have hhead := List.head_dropWhile_not (· != c) hne
      simp only [hdrop, List.head_cons, bne_eq_false_iff_eq] at hhead
      rw [← hhead]
      exact hmem

def Reading.Parts (P : Returned -> Prop) (Q : Char -> Prop) : Reading -> Prop
  | .operand => True
  | .endOfOptions => True
  | .given returned => forall r, r ∈ returned -> P r
  | .wanting returned val => (forall r, r ∈ returned -> P r) ∧ Q val

theorem Reading.Parts.add {P : Returned -> Prop} {Q : Char -> Prop} {r : Returned}
    {reading : Reading} (h : reading.Parts P Q) (hr : P r) :
    (reading.add r).Parts P Q := by
  cases reading with
  | operand => trivial
  | endOfOptions => trivial
  | given returned => exact List.forall_mem_cons.mpr ⟨hr, h⟩
  | wanting returned val => exact ⟨List.forall_mem_cons.mpr ⟨hr, h.left⟩, h.right⟩

theorem longOption_mem {long : List LongOption} {name : List Char} {o : LongOption}
    (h : longOption long name = some o) : o ∈ long := by
  unfold longOption at h
  split at h
  · rename_i exact' hfind
    rw [← Option.some.inj h]
    exact List.mem_of_find?_eq_some hfind
  · split at h
    · cases h
    · rename_i first others hfilter
      split at h
      · rw [← Option.some.inj h]
        have hmem : first ∈ first :: others := List.mem_cons_self
        rw [← hfilter] at hmem
        exact (List.mem_filter.mp hmem).left
      · cases h

def OptionTable.GivenBy (table : OptionTable) (word : List Char) (r : Returned) :
    Prop :=
  table.Offers r ∧ forall val arg, r = .option val (some arg) -> arg <:+ word

theorem givenBy_unknown (table : OptionTable) (word : List Char) :
    table.GivenBy word .unknown :=
  ⟨trivial, fun _ _ h => nomatch h⟩

theorem readShort_parts (table : OptionTable) {letters word : List Char}
    (hsuffix : letters <:+ word) :
    (readShort table.optstring letters).Parts (table.GivenBy word)
      (fun val => table.Offers (.option val (some []))) := by
  induction letters with
  | nil => exact fun r hr => nomatch hr
  | cons c rest ih =>
      have hrest : rest <:+ word := (List.suffix_cons c rest).trans hsuffix
      rw [readShort.eq_def]
      simp only
      split
      · exact (ih hrest).add (givenBy_unknown table word)
      · rename_i hshort
        exact (ih hrest).add ⟨Or.inl hshort, fun _ _ h => nomatch h⟩
      · rename_i hshort
        split
        · exact ⟨(fun r hr => nomatch hr), Or.inl hshort⟩
        · intro r hr
          rw [List.mem_singleton.mp hr]
          constructor
          · exact Or.inl hshort
          · intro val arg h
            cases h
            exact hrest

theorem readLong_parts (table : OptionTable) {text word : List Char}
    (hsuffix : text <:+ word) :
    (readLong table.long text).Parts (table.GivenBy word)
      (fun val => table.Offers (.option val (some []))) := by
  unfold readLong
  split
  · intro r hr
    rw [List.mem_singleton.mp hr]
    exact givenBy_unknown table word
  · rename_i o hlong hdrop
    have hmem := longOption_mem hlong
    split
    · rename_i harg
      exact ⟨(fun r hr => nomatch hr), Or.inr ⟨o, hmem, rfl, harg⟩⟩
    · rename_i harg
      intro r hr
      rw [List.mem_singleton.mp hr]
      exact ⟨Or.inr ⟨o, hmem, rfl, (Bool.not_eq_true _).mp harg⟩,
        fun _ _ h => nomatch h⟩
  · rename_i o sep value hlong hdrop
    have hmem := longOption_mem hlong
    split
    · rename_i harg
      intro r hr
      rw [List.mem_singleton.mp hr]
      constructor
      · exact Or.inr ⟨o, hmem, rfl, harg⟩
      · intro val arg h
        cases h
        have hvalue : value <:+ text.dropWhile (· != '=') := by
          rw [hdrop]
          exact List.suffix_cons sep value
        exact (hvalue.trans (List.dropWhile_suffix _)).trans hsuffix
    · intro r hr
      rw [List.mem_singleton.mp hr]
      exact givenBy_unknown table word

theorem OptionTable.read_parts (table : OptionTable) (word : List Char) :
    (table.read word).Parts (table.GivenBy word)
      (fun val => table.Offers (.option val (some []))) := by
  unfold OptionTable.read
  split
  · trivial
  · exact readLong_parts table
      ((List.suffix_cons _ _).trans (List.suffix_cons _ _))
  · exact readShort_parts table (List.suffix_cons _ _)
  · trivial

/-- Whatever the words are, every option that is returned is one of the table, with
an argument exactly when it takes one, and the argument is the end of a word. -/
theorem getoptLong_givenBy {table : OptionTable} {args : List (List Char)}
    {r : Returned} (h : r ∈ getoptLong table args) :
    exists word, word ∈ args ∧ table.GivenBy word r := by
  induction args using getoptLong.induct table with
  | case1 => exact nomatch h
  | case2 word rest hread ih =>
      rw [getoptLong, hread] at h
      rcases ih h with ⟨w, hw, hgiven⟩
      exact ⟨w, List.mem_cons_of_mem word hw, hgiven⟩
  | case3 word rest hread =>
      rw [getoptLong, hread] at h
      exact nomatch h
  | case4 word rest returned hread ih =>
      have hparts := table.read_parts word
      rw [hread] at hparts
      rw [getoptLong, hread] at h
      rcases List.mem_append.mp h with hhere | hlater
      · exact ⟨word, List.mem_cons_self, hparts r hhere⟩
      · rcases ih hlater with ⟨w, hw, hgiven⟩
        exact ⟨w, List.mem_cons_of_mem word hw, hgiven⟩
  | case5 word returned val hread =>
      have hparts := table.read_parts word
      rw [hread] at hparts
      rw [getoptLong, hread] at h
      refine ⟨word, List.mem_cons_self, ?_⟩
      rcases List.mem_append.mp h with hhere | hmissing
      · exact hparts.left r hhere
      · rw [List.mem_singleton.mp hmissing]
        exact givenBy_unknown table word
  | case6 word returned val hread arg rest ih =>
      have hparts := table.read_parts word
      rw [hread] at hparts
      rw [getoptLong, hread] at h
      rcases List.mem_append.mp h with hhere | hnext
      · exact ⟨word, List.mem_cons_self, hparts.left r hhere⟩
      · rcases List.mem_cons.mp hnext with hthis | hlater
        · -- the argument is the next word
          refine ⟨arg, List.mem_cons_of_mem word List.mem_cons_self, ?_⟩
          rw [hthis]
          constructor
          · exact hparts.right
          · intro val' arg' heq
            cases heq
            exact List.suffix_rfl
        · rcases ih hlater with ⟨w, hw, hgiven⟩
          exact ⟨w, List.mem_cons_of_mem word (List.mem_cons_of_mem arg hw), hgiven⟩

/-!
# Which option counts
-/

/-- What `pick` finds in the last element that has anything for it. -/
def lastSome (pick : α -> Option β) (l : List α) : Option β :=
  l.reverse.findSome? pick

@[simp] theorem lastSome_nil (pick : α -> Option β) : lastSome pick [] = none := rfl

theorem lastSome_append (pick : α -> Option β) (front back : List α) :
    lastSome pick (front ++ back) =
      (lastSome pick back).or (lastSome pick front) := by
  unfold lastSome
  rw [List.reverse_append, List.findSome?_append]

theorem lastSome_cons (pick : α -> Option β) (a : α) (l : List α) :
    lastSome pick (a :: l) = (lastSome pick l).or (pick a) := by
  rw [← List.singleton_append, lastSome_append]
  unfold lastSome
  simp

/-- A part of a state that an element either sets or leaves alone holds, after all of
them, what the last one has set. -/
theorem foldlM_lastSome {step : σ -> α -> Option σ} {part : σ -> β}
    {pick : α -> Option β}
    (h : forall s a t, step s a = some t -> part t = (pick a).getD (part s))
    {l : List α} {s t : σ} (hloop : l.foldlM step s = some t) :
    part t = (lastSome pick l).getD (part s) := by
  induction l generalizing s with
  | nil =>
      rw [← Option.some.inj hloop]
      rfl
  | cons a l ih =>
      rw [List.foldlM_cons] at hloop
      rcases Option.bind_eq_some_iff.mp hloop with ⟨s', hstep, hrest⟩
      rw [ih hrest, h s a s' hstep, lastSome_cons]
      cases lastSome pick l with
      | none => rfl
      | some b => rfl

theorem lastSome_map (pick : α -> Option β) (f : β -> γ) (l : List α) :
    lastSome (fun a => (pick a).map f) l = (lastSome pick l).map f := by
  induction l with
  | nil => rfl
  | cons a l ih =>
      rw [lastSome_cons, lastSome_cons, ih]
      cases lastSome pick l with
      | none => rfl
      | some b => rfl

theorem lastSome_constant (p : α -> Bool) (b : β) (l : List α) :
    lastSome (fun a => if p a then some b else none) l =
      if l.any p then some b else none := by
  induction l with
  | nil => rfl
  | cons a l ih =>
      rw [lastSome_cons, List.any_cons, ih]
      cases p a with
      | false => simp
      | true =>
          cases l.any p with
          | false => rfl
          | true => rfl

/-- A fold whose steps never fail has a result, with what the steps keep. -/
theorem foldlM_total {step : σ -> α -> Option σ} {P : σ -> Prop}
    (hstep : forall s a, P s -> exists t, step s a = some t ∧ P t) (l : List α) {s : σ}
    (hs : P s) : exists t, l.foldlM step s = some t ∧ P t := by
  induction l generalizing s with
  | nil => exact ⟨s, rfl, hs⟩
  | cons a l ih =>
      rcases hstep s a hs with ⟨t, ht, hP⟩
      rw [List.foldlM_cons, ht]
      exact ih hP

theorem foldlM_none_iff {step : σ -> α -> Option σ} {bad : α -> Prop} {l : List α}
    (h : forall s a, a ∈ l -> (step s a = none <-> bad a)) (s : σ) :
    l.foldlM step s = none <-> exists a, a ∈ l ∧ bad a := by
  induction l generalizing s with
  | nil => simp
  | cons a l ih =>
      have hhead := h s a List.mem_cons_self
      have hrest := ih fun s b hb => h s b (List.mem_cons_of_mem a hb)
      rw [List.foldlM_cons]
      simp only [List.mem_cons, exists_eq_or_imp, ← hhead]
      cases hstep : step s a with
      | none => simp
      | some t => simpa using hrest t

end Foundation
end Breakin
