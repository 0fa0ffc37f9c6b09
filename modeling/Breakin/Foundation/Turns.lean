/-!
# Loops that are left from their body

A turn of the loop either goes on with a new state or leaves the loop with a
result.
-/

namespace Breakin
namespace Foundation

variable {state result : Type}

inductive Turn (state result : Type) where
  | again (s : state)
  | leave (r : result)

/-- At most so many turns; `none` when the loop has not been left by then. -/
def turnLoop (body : state -> Turn state result) : Nat -> state -> Option result
  | 0, _ => none
  | fuel + 1, s =>
      match body s with
      | .again t => turnLoop body fuel t
      | .leave r => some r

section Rules

variable {body : state -> Turn state result}

theorem turnLoop_of_again {s t : state} (h : body s = .again t) (fuel : Nat) :
    turnLoop body (fuel + 1) s = turnLoop body fuel t := by
  rw [turnLoop, h]

theorem turnLoop_of_leave {s : state} {r : result} (h : body s = .leave r)
    (fuel : Nat) : turnLoop body (fuel + 1) s = some r := by
  rw [turnLoop, h]

/-- The loop that goes through the states `s 0`, ..., `s n` and is left from the
last of them. -/
theorem turnLoop_leaves {s : Nat -> state} {n : Nat} {r : result}
    (hagain : forall i, i < n -> body (s i) = .again (s (i + 1)))
    (hleave : body (s n) = .leave r) {fuel : Nat} (hfuel : n < fuel) :
    turnLoop body fuel (s 0) = some r := by
  induction n generalizing s fuel with
  | zero =>
      rcases Nat.exists_eq_add_of_lt hfuel with ⟨more, hmore⟩
      rw [hmore, Nat.zero_add, turnLoop_of_leave hleave]
  | succ n ih =>
      rcases Nat.exists_eq_add_of_lt hfuel with ⟨more, hmore⟩
      have hfewer : n < n + 1 + more := by omega
      rw [hmore, turnLoop_of_again (hagain 0 (Nat.succ_pos n))]
      exact ih (s := fun i => s (i + 1))
        (fun i hi => hagain (i + 1) (Nat.succ_lt_succ hi)) hleave hfewer

end Rules

end Foundation
end Breakin
