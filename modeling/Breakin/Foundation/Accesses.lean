import Mathlib.Data.List.Basic

/-!
# Code with the offsets it touches

A computation keeps a list of the offsets that it reads or writes, in order.  It
has no result when it leaves the memory it is given.  The rules say what a
computation touches from what its parts touch.
-/

namespace Breakin
namespace Foundation

structure Access (offset result : Type) where
  value : Option result
  offsets : List offset

namespace Access

section Rules

variable {offset result other : Type}

instance : Monad (Access offset) where
  pure r := ⟨some r, []⟩
  bind m f :=
    match m.value with
    | none => ⟨none, m.offsets⟩
    | some r => ⟨(f r).value, m.offsets ++ (f r).offsets⟩

def touch (i : offset) (r : Option result) : Access offset result :=
  ⟨r, [i]⟩

@[simp] theorem touch_value (i : offset) (r : Option result) :
    (touch i r).value = r := rfl

@[simp] theorem touch_offsets (i : offset) (r : Option result) :
    (touch i r).offsets = [i] := rfl

@[simp] theorem pure_value (r : result) :
    (pure r : Access offset result).value = some r := rfl

@[simp] theorem pure_offsets (r : result) :
    (pure r : Access offset result).offsets = [] := rfl

theorem bind_value_eq (m : Access offset result)
    (f : result -> Access offset other) :
    (m >>= f).value = m.value.bind fun r => (f r).value := by
  change (match m.value with
    | none => ⟨none, m.offsets⟩
    | some r => ⟨(f r).value, m.offsets ++ (f r).offsets⟩ :
      Access offset other).value = _
  cases m.value <;> rfl

theorem bind_value {m : Access offset result} {r : result}
    (h : m.value = some r) (f : result -> Access offset other) :
    (m >>= f).value = (f r).value := by
  rw [bind_value_eq, h]
  rfl

theorem bind_value_some {m : Access offset result}
    {f : result -> Access offset other} {s : other} :
    (m >>= f).value = some s <->
      exists r, m.value = some r ∧ (f r).value = some s := by
  rw [bind_value_eq, Option.bind_eq_some_iff]

theorem bind_offsets {m : Access offset result} {r : result}
    (h : m.value = some r) (f : result -> Access offset other) :
    (m >>= f).offsets = m.offsets ++ (f r).offsets := by
  change (match m.value with
    | none => ⟨none, m.offsets⟩
    | some r => ⟨(f r).value, m.offsets ++ (f r).offsets⟩ :
      Access offset other).offsets = _
  rw [h]

theorem bind_offsets_none {m : Access offset result} (h : m.value = none)
    (f : result -> Access offset other) : (m >>= f).offsets = m.offsets := by
  change (match m.value with
    | none => ⟨none, m.offsets⟩
    | some r => ⟨(f r).value, m.offsets ++ (f r).offsets⟩ :
      Access offset other).offsets = _
  rw [h]

theorem mem_bind {m : Access offset result} {r : result}
    (h : m.value = some r) {f : result -> Access offset other} {i : offset} :
    i ∈ (m >>= f).offsets <-> i ∈ m.offsets ∨ i ∈ (f r).offsets := by
  rw [bind_offsets h, List.mem_append]

theorem mem_bind_left {m : Access offset result} {i : offset}
    (h : i ∈ m.offsets) (f : result -> Access offset other) :
    i ∈ (m >>= f).offsets := by
  cases hm : m.value with
  | none =>
      rw [bind_offsets_none hm]
      exact h
  | some r => exact (mem_bind hm).mpr (Or.inl h)

def Inside (P : offset -> Prop) (m : Access offset result) : Prop :=
  forall i, i ∈ m.offsets -> P i

theorem Inside.mono {P Q : offset -> Prop} {m : Access offset result}
    (h : Inside P m) (hPQ : forall i, P i -> Q i) : Inside Q m :=
  fun i hi => hPQ i (h i hi)

theorem inside_pure (P : offset -> Prop) (r : result) :
    Inside P (pure r : Access offset result) := by
  intro i hi
  cases hi

theorem inside_touch {P : offset -> Prop} {i : offset} {r : Option result} :
    Inside P (touch i r) <-> P i := by
  constructor
  · intro h
    exact h i (List.mem_singleton.mpr rfl)
  · intro h j hj
    rw [List.mem_singleton.mp hj]
    exact h

theorem inside_bind {P : offset -> Prop} {m : Access offset result} {r : result}
    (h : m.value = some r) {f : result -> Access offset other} :
    Inside P (m >>= f) <-> Inside P m ∧ Inside P (f r) := by
  constructor
  · intro hall
    exact ⟨fun i hi => hall i ((mem_bind h).mpr (Or.inl hi)),
      fun i hi => hall i ((mem_bind h).mpr (Or.inr hi))⟩
  · rintro ⟨hm, hf⟩ i hi
    rcases (mem_bind h).mp hi with hleft | hright
    · exact hm i hleft
    · exact hf i hright

theorem inside_bind_pure {P : offset -> Prop} {m : Access offset result}
    {f : result -> other} :
    Inside P (m >>= fun r => pure (f r)) <-> Inside P m := by
  cases hm : m.value with
  | some r =>
      rw [inside_bind hm]
      exact and_iff_left (inside_pure P _)
  | none =>
      unfold Inside
      rw [bind_offsets_none hm]

def rename {offset' : Type} (name : offset -> offset')
    (m : Access offset result) : Access offset' result :=
  ⟨m.value, m.offsets.map name⟩

section Rename

variable {offset' : Type} {name : offset -> offset'}

@[simp] theorem rename_value (m : Access offset result) :
    (m.rename name).value = m.value := rfl

@[simp] theorem rename_touch (i : offset) (r : Option result) :
    (touch i r).rename name = touch (name i) r := rfl

@[simp] theorem rename_pure (r : result) :
    (pure r : Access offset result).rename name = pure r := rfl

@[simp] theorem rename_bind (m : Access offset result)
    (f : result -> Access offset other) :
    (m >>= f).rename name =
      m.rename name >>= fun r => (f r).rename name := by
  rcases m with ⟨value, offsets⟩
  cases value with
  | none => rfl
  | some r =>
      change Access.mk (f r).value ((offsets ++ (f r).offsets).map name) =
        ⟨(f r).value, offsets.map name ++ (f r).offsets.map name⟩
      rw [List.map_append]

theorem inside_rename {P : offset' -> Prop} {m : Access offset result} :
    Inside P (m.rename name) <-> Inside (fun i => P (name i)) m :=
  List.forall_mem_map

end Rename

/-- `a && b`, where `b` is not looked at when `a` is false. -/
def andAlso (a b : Access offset Bool) : Access offset Bool := do
  let first ← a
  if first then b else pure false

theorem andAlso_value {a b : Access offset Bool} {x y : Bool}
    (ha : a.value = some x) (hb : b.value = some y) :
    (andAlso a b).value = some (x && y) := by
  rw [andAlso, bind_value ha]
  cases x with
  | true => exact hb
  | false => rfl

theorem inside_andAlso {P : offset -> Prop} {a b : Access offset Bool} {x : Bool}
    (ha : a.value = some x) (hb : Inside P b) :
    Inside P (andAlso a b) <-> Inside P a := by
  rw [andAlso, inside_bind ha]
  refine and_iff_left ?_
  cases x with
  | true => exact hb
  | false => exact inside_pure P false

end Rules

/-!
# Reading memory
-/

section Reads

variable {cell : Type}

def read (mem : Nat -> cell) (i : Nat) : Access Nat cell :=
  touch i (some (mem i))

def readBlock (mem : Nat -> cell) : Nat -> Nat -> Access Nat (List cell)
  | _, 0 => pure []
  | start, n + 1 => do
      let c ← read mem start
      let rest ← readBlock mem (start + 1) n
      pure (c :: rest)

def block (mem : Nat -> cell) (start n : Nat) : List cell :=
  (List.range' start n).map mem

theorem block_congr {mem mem' : Nat -> cell} {start n : Nat}
    (h : forall i, i < start + n -> mem i = mem' i) :
    block mem start n = block mem' start n := by
  apply List.map_congr_left
  intro i hi
  exact h i (List.mem_range'_1.mp hi).right

@[simp] theorem read_value (mem : Nat -> cell) (i : Nat) :
    (read mem i).value = some (mem i) := rfl

theorem readBlock_value (mem : Nat -> cell) (start n : Nat) :
    (readBlock mem start n).value = some (block mem start n) := by
  induction n generalizing start with
  | zero => rfl
  | succ n ih =>
      rw [readBlock, bind_value (read_value mem start), bind_value (ih _)]
      rfl

theorem readBlock_offsets (mem : Nat -> cell) (start n : Nat) :
    (readBlock mem start n).offsets = List.range' start n := by
  induction n generalizing start with
  | zero => rfl
  | succ n ih =>
      rw [readBlock, bind_offsets (read_value mem start),
        bind_offsets (readBlock_value mem _ _), ih, pure_offsets,
        List.append_nil]
      rfl

end Reads

end Access
end Foundation
end Breakin
