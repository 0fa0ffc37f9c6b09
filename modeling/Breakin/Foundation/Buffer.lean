import Mathlib.Data.List.TakeWhile

/-!
# Buffers with bounds

A buffer is the list of its cells.  Reading is `buf[i]?`; writing and `strlen` fail
where C would leave the buffer, so that a result says that every access was
inside.  The lemmas follow a loop by cutting the buffer where the loop stands.
-/

namespace Breakin
namespace Foundation

section Cells

variable {cell : Type}

/-- `buf[i] = v`. -/
def store (buf : List cell) (i : Nat) (v : cell) : Option (List cell) :=
  if i < buf.length then some (buf.set i v) else none

theorem store_of_lt {buf : List cell} {i : Nat} (hi : i < buf.length)
    (v : cell) : store buf i v = some (buf.set i v) := by
  unfold store
  rw [if_pos hi]

theorem store_append (left right : List cell) (c v : cell) :
    store (left ++ c :: right) left.length v = some (left ++ v :: right) := by
  rw [store_of_lt (by simp), List.set_append_right _ _ (Nat.le_refl _), Nat.sub_self]
  rfl

theorem read_append (left right : List cell) (c : cell) :
    (left ++ c :: right)[left.length]? = some c := by
  simp

def storeAll : List cell -> Nat -> List cell -> Option (List cell)
  | buf, _, [] => some buf
  | buf, i, v :: rest => do
      let buf' ← store buf i v
      storeAll buf' (i + 1) rest

theorem storeAll_append (left : List cell) {old new : List cell}
    (h : old.length = new.length) (right : List cell) :
    storeAll (left ++ (old ++ right)) left.length new =
      some (left ++ (new ++ right)) := by
  induction new generalizing left old with
  | nil =>
      rw [List.eq_nil_of_length_eq_zero h]
      rfl
  | cons v new ih =>
      cases old with
      | nil => cases h
      | cons c old =>
          have hrest := ih (left ++ [v]) (Nat.succ.inj h)
          rw [List.length_append, List.length_singleton] at hrest
          rw [storeAll, List.cons_append, store_append]
          simpa using hrest

theorem getElem?_replace {left old new right : List cell}
    (h : old.length = new.length) {i : Nat}
    (hi : i < left.length ∨ left.length + new.length ≤ i) :
    (left ++ (new ++ right))[i]? = (left ++ (old ++ right))[i]? := by
  rcases hi with hbefore | hbehind
  · rw [List.getElem?_append_left hbefore, List.getElem?_append_left hbefore]
  · rw [List.getElem?_append_right (by omega),
      List.getElem?_append_right (by omega),
      List.getElem?_append_right (by omega),
      List.getElem?_append_right (by omega), h]

end Cells

/-!
# Strings in a buffer
-/

section Strings

variable {cell : Type} [DecidableEq cell]

/-- `strlen` of what starts at the first cell. -/
def strlen (nul : cell) : List cell -> Option Nat
  | [] => none
  | c :: rest => if c = nul then some 0 else (strlen nul rest).map (· + 1)

theorem strlen_append {nul : cell} {s : List cell} (h : nul ∉ s)
    (right : List cell) : strlen nul (s ++ nul :: right) = some s.length := by
  induction s with
  | nil => simp [strlen]
  | cons c rest ih =>
      rw [List.mem_cons, not_or] at h
      rw [List.cons_append, strlen, if_neg (Ne.symm h.left), ih h.right]
      rfl

theorem strlen_drop {nul : cell} {s : List cell} (h : nul ∉ s)
    (left right : List cell) :
    strlen nul ((left ++ (s ++ nul :: right)).drop left.length) =
      some s.length := by
  rw [List.drop_left]
  exact strlen_append h right

theorem strlen_notMem {nul : cell} {buf : List cell} {n : Nat}
    (h : strlen nul buf = some n) : nul ∉ buf.take n := by
  induction buf generalizing n with
  | nil => cases h
  | cons c rest ih =>
      rw [strlen] at h
      by_cases hc : c = nul
      · rw [if_pos hc] at h
        cases h
        exact List.not_mem_nil
      · rw [if_neg hc] at h
        rcases Option.map_eq_some_iff.mp h with ⟨m, hm, hn⟩
        rw [← hn, List.take_succ_cons, List.mem_cons, not_or]
        exact ⟨Ne.symm hc, ih hm⟩

theorem strlen_mem {nul : cell} {buf : List cell} {n : Nat}
    (h : strlen nul buf = some n) : nul ∈ buf := by
  induction buf generalizing n with
  | nil => cases h
  | cons c rest ih =>
      rw [strlen] at h
      split at h
      · rename_i hc
        rw [hc]
        exact List.mem_cons_self
      · rcases Option.map_eq_some_iff.mp h with ⟨m, hm, _⟩
        exact List.mem_cons_of_mem c (ih hm)

theorem exists_string {nul : cell} {buf : List cell} (h : nul ∈ buf) :
    exists s right, nul ∉ s ∧ buf = s ++ nul :: right := by
  induction buf with
  | nil => cases h
  | cons c rest ih =>
      by_cases hc : c = nul
      · exists []
        exists rest
        rw [hc]
        exact ⟨by simp, rfl⟩
      · have hrest : nul ∈ rest :=
          (List.mem_cons.mp h).resolve_left (Ne.symm hc)
        rcases ih hrest with ⟨s, right, hs, heq⟩
        exists c :: s
        exists right
        rw [heq]
        refine ⟨?_, rfl⟩
        rw [List.mem_cons, not_or]
        exact ⟨Ne.symm hc, hs⟩

end Strings

end Foundation
end Breakin
