import Mathlib.Algebra.Order.Ring.Nat
import Breakin.Foundation.Buffer
import Breakin.Foundation.Runs

/-!
# Filling a table slot by slot

A collecting loop writes what it finds into the slots of a fixed table, one after
the other.  Here is its effect, given the updates it makes: `none` is a write
behind the last slot.
-/

namespace Breakin
namespace Foundation

section Filling

variable {cell : Type}

def fillFrom : Nat -> List (cell -> cell) -> List cell -> Option (List cell)
  | _, [], table => some table
  | i, f :: rest, table => do
      let old ← table[i]?
      let table' ← store table i (f old)
      fillFrom (i + 1) rest table'

@[simp] theorem fillFrom_nil (i : Nat) (table : List cell) :
    fillFrom i [] table = some table := rfl

theorem fillFrom_cons {i : Nat} {f : cell -> cell} {rest : List (cell -> cell)}
    {table : List cell} (hi : i < table.length) :
    fillFrom i (f :: rest) table =
      fillFrom (i + 1) rest (table.set i (f table[i])) := by
  simp only [fillFrom, List.getElem?_eq_getElem hi, store_of_lt hi,
    Option.bind_eq_bind, Option.bind_some]

/-- The table is overrun exactly when there are more updates than slots left. -/
theorem fillFrom_isSome {i : Nat} {updates : List (cell -> cell)}
    {table : List cell} (hi : i ≤ table.length) :
    (fillFrom i updates table).isSome = true <->
      i + updates.length ≤ table.length := by
  induction updates generalizing i table with
  | nil => simpa using hi
  | cons f rest ih =>
      by_cases hlt : i < table.length
      · have hnext : i + 1 ≤ (table.set i (f table[i])).length := by
          rw [List.length_set]
          exact hlt
        rw [fillFrom_cons hlt, ih hnext, List.length_set, List.length_cons]
        omega
      · have hnone : table[i]? = none := List.getElem?_eq_none (by omega)
        rw [List.length_cons]
        simp only [fillFrom, hnone, Option.bind_eq_bind, Option.bind_none]
        constructor
        · intro h
          cases h
        · intro h
          omega

theorem fillFrom_length {i : Nat} {updates : List (cell -> cell)}
    {table table' : List cell} (h : fillFrom i updates table = some table') :
    table'.length = table.length := by
  induction updates generalizing i table with
  | nil =>
      cases h
      rfl
  | cons f rest ih =>
      by_cases hlt : i < table.length
      · rw [fillFrom_cons hlt] at h
        rw [ih h, List.length_set]
      · simp [fillFrom, List.getElem?_eq_none (Nat.le_of_not_lt hlt)] at h

theorem fillFrom_getElem? {i : Nat} {updates : List (cell -> cell)}
    {table table' : List cell} (h : fillFrom i updates table = some table')
    (k : Nat) :
    table'[k]? =
      if k < i then table[k]?
      else
        match updates[k - i]? with
        | none => table[k]?
        | some f => table[k]?.map f := by
  induction updates generalizing i table with
  | nil =>
      cases h
      simp
  | cons f rest ih =>
      by_cases hlt : i < table.length
      · rw [fillFrom_cons hlt] at h
        rw [ih h]
        by_cases hki : k < i
        · rw [if_pos (by omega), if_pos hki, List.getElem?_set_ne (by omega)]
        · by_cases heq : k = i
          · rw [heq, if_pos (Nat.lt_succ_self i), if_neg (Nat.lt_irrefl i),
              Nat.sub_self, List.getElem?_set_self hlt]
            simp [List.getElem?_eq_getElem hlt]
          · have hidx : k - i = (k - (i + 1)) + 1 := by omega
            rw [if_neg (by omega), if_neg hki, hidx, List.getElem?_cons_succ,
              List.getElem?_set_ne (by omega)]
      · simp [fillFrom, List.getElem?_eq_none (Nat.le_of_not_lt hlt)] at h

theorem fillFrom_front {record : Type} (write : record -> cell -> cell)
    {records : List record} {table : List cell}
    (h : records.length ≤ table.length) :
    exists table' : List cell,
      fillFrom 0 (records.map write) table = some table' ∧
        table'.length = table.length ∧
          forall k : Nat, table'[k]? =
            match records[k]? with
            | none => table[k]?
            | some r => table[k]?.map (write r) := by
  have hroom : (fillFrom 0 (records.map write) table).isSome = true := by
    rw [fillFrom_isSome (Nat.zero_le _), Nat.zero_add, List.length_map]
    exact h
  rcases Option.isSome_iff_exists.mp hroom with ⟨table', hfill⟩
  refine ⟨table', hfill, fillFrom_length hfill, ?_⟩
  intro k
  rw [fillFrom_getElem? hfill, if_neg (Nat.not_lt_zero k), Nat.sub_zero,
    List.getElem?_map]
  cases records[k]? <;> rfl

end Filling

/-!
# Runs that collect

Each step of a run adds at most one item until `max` are there.  The items are
those that the actions call for, in their order, exactly as long as every step
taken while there is room adds what its action calls for.
-/

section Collecting

variable {item : Type}

theorem take_append_toList {max : Nat} {items : List item}
    (h : items.length < max) (o : Option item) :
    (items ++ o.toList).take max = items ++ o.toList := by
  have hone : o.toList.length ≤ 1 := by cases o <;> simp
  apply List.take_of_length_le
  rw [List.length_append]
  omega

theorem take_append_toList_iff {max : Nat} {items wanted : List item}
    (h : items = wanted.take max) (o w : Option item) :
    (items ++ o.toList).take max = (wanted ++ w.toList).take max <->
      (items.length < max -> o = w) := by
  have hlen := congrArg List.length h
  rw [List.length_take] at hlen
  by_cases hroom : items.length < max
  · have hwanted : items = wanted := by
      rw [h, List.take_of_length_le (by omega)]
    rw [← hwanted, take_append_toList hroom, take_append_toList hroom,
      List.append_cancel_left_eq]
    constructor
    · intro heq _
      have hhead := congrArg List.head? heq
      rw [Option.head?_toList, Option.head?_toList] at hhead
      exact hhead
    · intro heq
      rw [heq hroom]
  · have hfull : items.length = max := by omega
    rw [List.take_append_of_le_length (by omega),
      List.take_append_of_le_length (by omega), h, List.take_take, Nat.min_self]
    exact ⟨fun _ hlt => absurd hlt (by rw [← h]; exact hroom), fun _ => rfl⟩

variable {state action : Type}

structure Collector (step : state -> action -> Option state) (max : Nat)
    (items : state -> List item) (called : action -> Option item)
    (Ready : state -> Prop) (Legal : action -> Prop)
    (Fits : state -> action -> Prop) : Prop where
  turn : forall s a, Ready s -> Legal a -> exists t, step s a = some t ∧
    Ready t ∧ exists o : Option item,
      items t = (items s ++ o.toList).take max ∧ (o = called a <-> Fits s a)

section Runs

variable {step : state -> action -> Option state} {max : Nat}
  {items : state -> List item} {called : action -> Option item}
  {Ready : state -> Prop} {Legal : action -> Prop}
  {Fits : state -> action -> Prop}

theorem Collector.run (c : Collector step max items called Ready Legal Fits)
    {s : state} (hs : Ready s) {acts : List action}
    (hacts : forall a, a ∈ acts -> Legal a) :
    exists t, runFrom step s acts = some t ∧ Ready t := by
  refine runFrom_total (fun s a hs ha => ?_) hs hacts
  rcases c.turn s a hs ha with ⟨t, hstep, ht, _⟩
  exact ⟨t, hstep, ht⟩

def Collected (step : state -> action -> Option state) (max : Nat)
    (items : state -> List item) (called : action -> Option item) (s : state)
    (acts : List action) : Prop :=
  forall pre post t, acts = pre ++ post -> runFrom step s pre = some t ->
    items t = (pre.filterMap called).take max

theorem Collector.collected_iff
    (c : Collector step max items called Ready Legal Fits) {s : state}
    (hs : Ready s) (hempty : items s = []) {acts : List action}
    (hacts : forall a, a ∈ acts -> Legal a) :
    Collected step max items called s acts <->
      StepsMeet step s acts fun t a => (items t).length < max -> Fits t a := by
  have hturn : forall pre a post t, acts = pre ++ a :: post ->
      runFrom step s pre = some t ->
        items t = (pre.filterMap called).take max ->
          exists u, runFrom step s (pre ++ [a]) = some u ∧
            (items u = ((pre ++ [a]).filterMap called).take max <->
              ((items t).length < max -> Fits t a)) := by
    intro pre a post t hsplit hrun hitems
    have hlegal : forall b, b ∈ pre -> Legal b := fun b hb =>
      hacts b (by rw [hsplit]; exact List.mem_append_left _ hb)
    rcases c.run hs hlegal with ⟨t', hrun', ht⟩
    rw [hrun, Option.some.injEq] at hrun'
    rw [← hrun'] at ht
    rcases c.turn t a ht (hacts a (by rw [hsplit]; simp))
      with ⟨u, hstep, _, o, hadded, hfits⟩
    exists u
    refine ⟨runFrom_snoc.mpr ⟨t, hrun, hstep⟩, ?_⟩
    have hcalled : (pre ++ [a]).filterMap called =
        pre.filterMap called ++ (called a).toList := by
      rw [List.filterMap_append]
      cases hcall : called a <;> simp [hcall]
    rw [hadded, hcalled, take_append_toList_iff hitems, hfits]
  constructor
  · intro hcollected pre a post t hsplit hrun
    have hitems := hcollected pre (a :: post) t hsplit hrun
    rcases hturn pre a post t hsplit hrun hitems with ⟨u, hnext, hiff⟩
    exact hiff.mp (hcollected (pre ++ [a]) post u (by simp [hsplit]) hnext)
  · intro hmeet pre
    induction pre using List.reverseRecOn with
    | nil =>
        intro post t _ hrun
        cases hrun
        rw [hempty, List.filterMap_nil, List.take_nil]
    | append_singleton pre a ih =>
        intro post t hsplit hrun
        have hsplit' : acts = pre ++ a :: post := by
          rw [hsplit, List.append_assoc]
          rfl
        rcases runFrom_snoc.mp hrun with ⟨u, hpre, _⟩
        have hitems := ih (a :: post) u hsplit' hpre
        rcases hturn pre a post u hsplit' hpre hitems
          with ⟨t', hnext, hiff⟩
        rw [hrun, Option.some.injEq] at hnext
        rw [← hnext] at hiff
        exact hiff.mpr (hmeet pre a post u hsplit' hpre)

end Runs

end Collecting

end Foundation
end Breakin
