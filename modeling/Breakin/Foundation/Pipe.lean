import Breakin.Foundation.CString

/-!
# Pipes with a history

A pipe is a byte queue.  Two history fields, `written` and `reads`, record what
went in and how the reader's `fgets` calls took it out; the last field says that
nothing is lost or invented on the way.
-/

namespace Breakin
namespace Foundation

structure Pipe where
  written : List Char
  reads : List (List Char)
  unread : List Char
  account : reads.flatten ++ unread = written
deriving DecidableEq

namespace Pipe

def empty : Pipe where
  written := []
  reads := []
  unread := []
  account := rfl

def write (p : Pipe) (bytes : List Char) : Pipe where
  written := p.written ++ bytes
  reads := p.reads
  unread := p.unread ++ bytes
  account := by rw [← List.append_assoc, p.account]

def take (p : Pipe) (line rest : List Char) (h : line ++ rest = p.unread) :
    Pipe where
  written := p.written
  reads := p.reads ++ [line]
  unread := rest
  account := by simp [h, p.account]

/-- One `fgets` call of the reader, with the line it returns. -/
def fgets (size : Nat) (p : Pipe) : Option (List Char × Pipe) :=
  match h : Foundation.fgets size p.unread with
  | none => none
  | some (line, rest) => some (line, p.take line rest (fgets_append h))

@[simp] theorem write_written (p : Pipe) (bytes : List Char) :
    (p.write bytes).written = p.written ++ bytes := rfl

@[simp] theorem write_reads (p : Pipe) (bytes : List Char) :
    (p.write bytes).reads = p.reads := rfl

@[simp] theorem write_unread (p : Pipe) (bytes : List Char) :
    (p.write bytes).unread = p.unread ++ bytes := rfl

theorem fgets_none_iff {size : Nat} {p : Pipe} :
    p.fgets size = none <-> p.unread = [] := by
  unfold fgets
  split
  · rename_i hnone
    simpa using fgets_eq_none.mp hnone
  · rename_i line rest hsome
    constructor
    · intro h
      cases h
    · intro hempty
      rw [hempty] at hsome
      cases hsome

theorem fgets_some {size : Nat} {p q : Pipe} {line : List Char}
    (h : p.fgets size = some (line, q)) :
    exists rest, Foundation.fgets size p.unread = some (line, rest) ∧
      q.written = p.written ∧ q.reads = p.reads ++ [line] ∧
        q.unread = rest := by
  unfold fgets at h
  split at h
  · cases h
  · rename_i line' rest hline
    cases h
    exact ⟨rest, hline, rfl, rfl, rfl⟩

theorem fgets_shorter {size : Nat} {p q : Pipe} {line : List Char}
    (hsize : 1 < size) (h : p.fgets size = some (line, q)) :
    q.unread.length < p.unread.length := by
  rcases fgets_some h with ⟨rest, hfgets, _, _, hrest⟩
  have hline : 0 < line.length := by
    cases hunread : p.unread with
    | nil => simp [hunread] at hfgets
    | cons c more =>
        simp only [hunread, Foundation.fgets, Option.some.injEq,
          Prod.mk.injEq] at hfgets
        rw [← hfgets.left, List.length_take]
        have hfirst : 0 < (firstLine (c :: more)).length := by
          unfold firstLine
          split <;> exact Nat.succ_pos _
        omega
  rw [hrest, ← fgets_append hfgets, List.length_append]
  omega

/-- A drained pipe has delivered everything that was written to it. -/
theorem reads_eq_written_iff (p : Pipe) :
    p.reads.flatten = p.written <-> p.unread = [] := by
  constructor
  · intro h
    have hacc := p.account
    rw [← h] at hacc
    simpa using hacc
  · intro h
    have hacc := p.account
    rw [h] at hacc
    simpa using hacc

end Pipe

end Foundation
end Breakin
