import Mathlib.Data.List.ReduceOption

/-!
# Collecting through a scratch value

A loop looks at entries one after the other, and may record one thing for each
until a number of records is reached.  All turns work on one scratch value, so
what is recorded for an entry may depend on the entries before it.
-/

namespace Breakin
namespace Foundation

variable {entry record scratch : Type}

section Collect

variable (step : entry -> scratch -> Option record × scratch)

def scratchAfter (entries : List entry) (s : scratch) : scratch :=
  entries.foldl (fun s e => (step e s).2) s

def collect : List entry -> scratch -> List record
  | [], _ => []
  | e :: rest, s => (step e s).1.toList ++ collect rest (step e s).2

def visited : List entry -> scratch -> Nat -> List (Option record)
  | [], _, _ => []
  | _ :: _, _, 0 => []
  | e :: rest, s, room + 1 =>
      match (step e s).1 with
      | none => none :: visited rest (step e s).2 (room + 1)
      | some r => some r :: visited rest (step e s).2 room

end Collect

section Rules

variable {step : entry -> scratch -> Option record × scratch}

theorem collect_append (left right : List entry) (s : scratch) :
    collect step (left ++ right) s =
      collect step left s ++ collect step right (scratchAfter step left s) := by
  induction left generalizing s with
  | nil => rfl
  | cons e left ih =>
      rw [List.cons_append, collect, collect, ih, List.append_assoc]
      rfl

theorem visited_reduceOption (entries : List entry) (s : scratch)
    (room : Nat) :
    (visited step entries s room).reduceOption =
      (collect step entries s).take room := by
  induction entries generalizing s room with
  | nil => simp [visited, collect]
  | cons e rest ih =>
      cases room with
      | zero => simp [visited]
      | succ room =>
          unfold visited collect
          cases (step e s).1 with
          | none =>
              simp only [List.reduceOption_cons_of_none, Option.toList_none,
                List.nil_append]
              exact ih _ _
          | some r =>
              simp only [List.reduceOption_cons_of_some, Option.toList_some,
                List.singleton_append, List.take_succ_cons]
              rw [ih]

theorem visited_getElem? {entries : List entry} {s : scratch} {room i : Nat}
    {a : Option record} :
    (visited step entries s room)[i]? = some a <->
      exists e, entries[i]? = some e ∧
        (collect step (entries.take i) s).length < room ∧
          a = (step e (scratchAfter step (entries.take i) s)).1 := by
  induction entries generalizing s room i with
  | nil => simp [visited]
  | cons e rest ih =>
      cases room with
      | zero => simp [visited]
      | succ room =>
          unfold visited
          cases i with
          | zero =>
              cases hturn : (step e s).1 <;>
                simp [collect, scratchAfter, hturn, eq_comm]
          | succ i =>
              have hafter : scratchAfter step (e :: rest.take i) s =
                  scratchAfter step (rest.take i) (step e s).2 := rfl
              rw [List.getElem?_cons_succ, List.take_succ_cons, hafter,
                collect]
              cases (step e s).1 with
              | none =>
                  rw [List.getElem?_cons_succ, ih]
                  rfl
              | some r =>
                  rw [List.getElem?_cons_succ, ih]
                  simp

/-- `own` says what is to be recorded for an entry; a determined entry gets that
whatever the scratch value is. -/
def Determined (step : entry -> scratch -> Option record × scratch)
    (own : entry -> Option record) (e : entry) : Prop :=
  forall s, (step e s).1 = own e

variable {own : entry -> Option record}

def DeterminedWithin (step : entry -> scratch -> Option record × scratch)
    (own : entry -> Option record) (entries : List entry) (room : Nat) : Prop :=
  forall (i : Nat) (e : entry), entries[i]? = some e ->
    ((entries.take i).filterMap own).length < room -> Determined step own e

theorem DeterminedWithin.take {entries : List entry} {room : Nat}
    (h : DeterminedWithin step own entries room) (n : Nat) :
    DeterminedWithin step own (entries.take n) room := by
  intro i e hi hroom
  rw [List.getElem?_take] at hi
  by_cases hn : i < n
  · rw [if_pos hn] at hi
    rw [List.take_take, Nat.min_eq_left (Nat.le_of_lt hn)] at hroom
    exact h i e hi hroom
  · rw [if_neg hn] at hi
    cases hi

/-- Determined entries are recorded for what they are. -/
theorem collect_determined {entries : List entry} {s : scratch} {room : Nat}
    (h : DeterminedWithin step own entries room) :
    (collect step entries s).take room =
      (entries.filterMap own).take room := by
  induction entries generalizing s room with
  | nil => rfl
  | cons e rest ih =>
      cases room with
      | zero => rw [List.take_zero, List.take_zero]
      | succ room =>
          have hturn : (step e s).1 = own e := h 0 e rfl (Nat.succ_pos _) s
          have hrest : forall left, left + (own e).toList.length = room + 1 ->
              DeterminedWithin step own rest left := by
            intro left hleft i e' hi hroom
            apply h (i + 1) e' hi
            rw [List.take_succ_cons, List.filterMap_cons]
            cases hown : own e with
            | none =>
                rw [hown] at hleft
                simp at hleft ⊢
                omega
            | some r =>
                rw [hown] at hleft
                simp at hleft ⊢
                omega
          rw [collect, hturn, List.filterMap_cons]
          cases hown : own e with
          | none =>
              exact ih (hrest (room + 1) (by rw [hown]; rfl))
          | some r =>
              rw [Option.toList_some, List.singleton_append,
                List.take_succ_cons, List.take_succ_cons,
                ih (hrest room (by rw [hown]; rfl))]

theorem determined_of_visited {entries : List entry} {s : scratch} {room i : Nat}
    {e : entry} {a : Option record} (h : DeterminedWithin step own entries room)
    (hi : entries[i]? = some e)
    (ha : (visited step entries s room)[i]? = some a) :
    Determined step own e ∧ a = own e := by
  rcases visited_getElem?.mp ha with ⟨e', hi', hroom, hturn⟩
  have hsame : e' = e := Option.some.inj (hi'.symm.trans hi)
  have hcount := congrArg List.length
    (collect_determined (s := s) (h.take i))
  rw [List.length_take, List.length_take] at hcount
  have he : Determined step own e := h i e hi (by omega)
  rw [hturn, hsame]
  exact ⟨he, he _⟩

theorem collect_of_visited {entries : List entry} {s : scratch} {room : Nat}
    (h : forall (i : Nat) (e : entry) (a : Option record),
      entries[i]? = some e ->
        (visited step entries s room)[i]? = some a -> a = own e)
    {i : Nat} (hi : i ≤ entries.length)
    (hroom : ((entries.take i).filterMap own).length < room) :
    collect step (entries.take i) s = (entries.take i).filterMap own := by
  induction i with
  | zero => rfl
  | succ i ih =>
      have hat : entries[i]? = some entries[i] := List.getElem?_eq_getElem hi
      rw [List.take_add_one, hat, Option.toList_some, List.filterMap_append,
        List.length_append] at hroom
      have hbefore := ih (by omega) (by omega)
      have hvisited : (visited step entries s room)[i]? =
          some (step entries[i] (scratchAfter step (entries.take i) s)).1 := by
        apply visited_getElem?.mpr
        refine ⟨entries[i], hat, ?_, rfl⟩
        rw [hbefore]
        omega
      rw [List.take_add_one, hat, Option.toList_some, collect_append,
        List.filterMap_append, hbefore, collect, collect, List.append_nil,
        h i _ _ hat hvisited]
      cases hown : own entries[i] <;> simp [hown]

/-!
# One entry and the others

What is recorded for an entry is to be its own, in every run, and the same in two
runs that differ in another entry.
-/

def Passive (step : entry -> scratch -> Option record × scratch)
    (e : entry) : Prop :=
  forall s, step e s = (none, s)

theorem passive_entries {entries : List entry}
    (h : forall e, e ∈ entries -> Passive step e) (s : scratch) :
    collect step entries s = [] ∧ scratchAfter step entries s = s := by
  induction entries generalizing s with
  | nil => exact ⟨rfl, rfl⟩
  | cons e rest ih =>
      have he : step e s = (none, s) := h e (List.mem_cons_self ..) s
      have hrest := ih (fun e' he' => h e' (List.mem_cons_of_mem e he')) s
      constructor
      · rw [collect, he]
        exact hrest.left
      · have hafter : scratchAfter step (e :: rest) s =
            scratchAfter step rest (step e s).2 := rfl
        rw [hafter, he]
        exact hrest.right

theorem last_active (step : entry -> scratch -> Option record × scratch)
    (entries : List entry) :
    (forall e, e ∈ entries -> Passive step e) ∨
      exists front d rest, entries = front ++ d :: rest ∧ ¬ Passive step d ∧
        forall e, e ∈ rest -> Passive step e := by
  induction entries with
  | nil =>
      left
      intro e he
      cases he
  | cons e entries ih =>
      rcases ih with hall | ⟨front, d, rest, hentries, hd, hrest⟩
      · by_cases he : Passive step e
        · left
          intro e' he'
          rcases List.mem_cons.mp he' with heq | hin
          · rw [heq]
            exact he
          · exact hall e' hin
        · right
          exact ⟨[], e, entries, rfl, he, hall⟩
      · right
        exists e :: front, d, rest
        rw [hentries]
        exact ⟨rfl, hd, hrest⟩

structure Independent (step : entry -> scratch -> Option record × scratch)
    (own : entry -> Option record) (Changes : entry -> entry -> Prop)
    (entries : List entry) (room : Nat) : Prop where
  outcome : forall (s : scratch) (i : Nat) (e : entry) (a : Option record),
    entries[i]? = some e ->
      (visited step entries s room)[i]? = some a -> a = own e
  unchanged : forall (s : scratch) (j : Nat) (d d' : entry),
    entries[j]? = some d -> Changes d d' ->
      forall (i : Nat) (a b : Option record), i ≠ j ->
        (visited step entries s room)[i]? = some a ->
          (visited step (entries.set j d') s room)[i]? = some b -> a = b

theorem independent_of_determined {Changes : entry -> entry -> Prop}
    {entries : List entry} {room : Nat}
    (h : DeterminedWithin step own entries room) :
    Independent step own Changes entries room := by
  constructor
  · intro s i e a hi ha
    exact (determined_of_visited h hi ha).right
  · intro s j d d' _ _ i a b hne ha hb
    rcases visited_getElem?.mp ha with ⟨e, hi, _, _⟩
    rcases determined_of_visited h hi ha with ⟨he, hown⟩
    rcases visited_getElem?.mp hb with ⟨e', hi', _, hturn⟩
    rw [List.getElem?_set_ne (Ne.symm hne), hi, Option.some.injEq] at hi'
    rw [hown, hturn, ← hi', he]

/-- With the last active entry before it changed into one that leaves `v`, an entry
is visited as before and finds `v`. -/
theorem visited_changed {entries front rest : List entry} {room i : Nat}
    {d d' e : entry} {s v : scratch} (hi : entries[i]? = some e)
    (htake : entries.take i = front ++ d :: rest)
    (hrest : forall e, e ∈ rest -> Passive step e)
    (hleave : forall s, step d' s = (none, v))
    (hroom : (collect step (entries.take i) s).length < room) :
    front.length < i ∧ entries[front.length]? = some d ∧
      (visited step (entries.set front.length d') s room)[i]? =
        some (step e v).1 := by
  have hlength := congrArg List.length htake
  rw [List.length_take, List.length_append, List.length_cons] at hlength
  have hbefore : front.length < i := by omega
  have htake' : (entries.set front.length d').take i =
      front ++ d' :: rest := by
    rw [List.take_set, htake]
    simp
  refine ⟨hbefore, ?_, visited_getElem?.mpr ⟨e, ?_, ?_, ?_⟩⟩
  · have hat : (entries.take i)[front.length]? = some d := by
      rw [htake]
      simp
    rw [List.getElem?_take, if_pos hbefore] at hat
    exact hat
  · rw [List.getElem?_set_ne (Nat.ne_of_lt hbefore)]
    exact hi
  · -- the changed entry records nothing, so there is still room
    rw [htake, collect_append, List.length_append] at hroom
    rw [htake', collect_append, collect, hleave,
      (passive_entries hrest v).left, Option.toList_none, List.append_nil,
      List.append_nil]
    omega
  · have hafter : scratchAfter step (front ++ d' :: rest) s =
        scratchAfter step rest (step d' (scratchAfter step front s)).2 := by
      simp [scratchAfter]
    rw [htake', hafter, hleave, (passive_entries hrest v).right]

/-- The converse, where some scratch values tell whether an entry is determined,
and every entry that is not passive can be changed into one that leaves such a
value. -/
theorem independent_iff_determined {Changes : entry -> entry -> Prop}
    {entries : List entry} {room : Nat} (values : List scratch)
    (htell : forall e, e ∈ entries ->
      (forall v, v ∈ values -> (step e v).1 = own e) -> Determined step own e)
    (hleave : forall d, d ∈ entries -> ¬ Passive step d ->
      forall v, v ∈ values ->
        exists d', Changes d d' ∧ forall s, step d' s = (none, v)) :
    Independent step own Changes entries room <->
      DeterminedWithin step own entries room := by
  constructor
  · intro h i e hi hroom
    apply htell e (List.mem_of_getElem? hi)
    intro v hv
    have hlt : i < entries.length := (List.getElem?_eq_some_iff.mp hi).1
    have hbefore := collect_of_visited (s := v) (h.outcome v)
      (Nat.le_of_lt hlt) hroom
    rw [← hbefore] at hroom
    have hvisited := visited_getElem?.mpr ⟨e, hi, hroom, rfl⟩
    have hown := h.outcome v i e _ hi hvisited
    rcases last_active step (entries.take i)
      with hpassive | ⟨front, d, rest, htake, hd, hrest⟩
    · rw [(passive_entries hpassive v).right] at hown
      exact hown
    · have hin : d ∈ entries.take i := by
        rw [htake]
        simp
      rcases hleave d (List.mem_of_mem_take hin) hd v hv
        with ⟨d', hchange, hturn⟩
      rcases visited_changed hi htake hrest hturn hroom
        with ⟨hfront, hat, hvisited'⟩
      rw [← h.unchanged v front.length d d' hat hchange i _ _
        (Nat.ne_of_gt hfront) hvisited hvisited']
      exact hown
  · exact independent_of_determined

end Rules

end Foundation
end Breakin
