import Mathlib.Order.Lattice
import Mathlib.Data.List.Chain

/-!
# Windows over a line of time

A list of closed windows whose two ends both move forward covers everything from
the first to the last exactly when no window starts after the one before it has
ended.
-/

namespace Breakin
namespace Foundation

structure Window (time : Type) [LE time] where
  lo : time
  hi : time
  order : lo ≤ hi

section Covering

variable {time : Type} [LinearOrder time]

def Window.Has (w : Window time) (e : time) : Prop :=
  w.lo ≤ e ∧ e ≤ w.hi

def Window.Before (w w' : Window time) : Prop :=
  w.lo ≤ w'.lo ∧ w.hi ≤ w'.hi

def Window.Meets (w w' : Window time) : Prop :=
  w'.lo ≤ w.hi

def Seen (ws : List (Window time)) (e : time) : Prop :=
  exists w, w ∈ ws ∧ w.Has e

def lastHi : Window time -> List (Window time) -> time
  | w, [] => w.hi
  | _, w' :: rest => lastHi w' rest

theorem hi_le_lastHi {w : Window time} {rest : List (Window time)}
    (h : List.IsChain Window.Before (w :: rest)) : w.hi ≤ lastHi w rest := by
  induction rest generalizing w with
  | nil => exact le_refl _
  | cons w' rest ih =>
      rcases List.isChain_cons_cons.mp h with ⟨hbefore, hrest⟩
      exact le_trans hbefore.right (ih hrest)

theorem lo_le_of_mem {w w' : Window time} {rest : List (Window time)}
    (h : List.IsChain Window.Before (w :: rest)) (hmem : w' ∈ w :: rest) :
    w.lo ≤ w'.lo := by
  induction rest generalizing w with
  | nil =>
      rw [List.mem_singleton.mp hmem]
  | cons w1 rest ih =>
      rcases List.isChain_cons_cons.mp h with ⟨hbefore, hrest⟩
      rcases List.mem_cons.mp hmem with heq | htail
      · rw [heq]
      · exact le_trans hbefore.left (ih hrest htail)

variable [DenselyOrdered time]

/-- The covering rule.  The induction is on the windows; the instant from which
they have to cover may be any in the first. -/
theorem seen_iff_meets {w : Window time} {rest : List (Window time)} {x : time}
    (h : List.IsChain Window.Before (w :: rest)) (hx : w.Has x) :
    (forall e, x ≤ e -> e ≤ lastHi w rest -> Seen (w :: rest) e) <->
      List.IsChain Window.Meets (w :: rest) := by
  induction rest generalizing w x with
  | nil =>
      constructor
      · intro _
        exact List.isChain_singleton w
      · intro _ e hxe he
        exact ⟨w, by simp, le_trans hx.left hxe, he⟩
  | cons w' rest ih =>
      rcases List.isChain_cons_cons.mp h with ⟨hbefore, hrest⟩
      have hlast : w'.hi ≤ lastHi w' rest := hi_le_lastHi hrest
      have hx' : w'.Has w'.hi := ⟨w'.order, le_refl _⟩
      have htail := ih hrest hx'
      rw [List.isChain_cons_cons, ← htail]
      constructor
      · intro hseen
        constructor
        · apply le_of_not_gt
          intro hgap
          rcases exists_between hgap with ⟨e, hlow, hhigh⟩
          have he : e ≤ lastHi w' rest :=
            le_trans (le_of_lt hhigh) (le_trans w'.order hlast)
          rcases hseen e (le_trans hx.right (le_of_lt hlow)) he with
            ⟨u, hu, hhas⟩
          rcases List.mem_cons.mp hu with heq | hmem
          · rw [heq] at hhas
            exact absurd hhas.right (not_le_of_gt hlow)
          · have hlo := lo_le_of_mem hrest hmem
            exact absurd (le_trans hlo hhas.left) (not_le_of_gt hhigh)
        · intro e hxe he
          have hxe' : x ≤ e :=
            le_trans hx.right (le_trans hbefore.right hxe)
          rcases hseen e hxe' he with ⟨u, hu, hhas⟩
          rcases List.mem_cons.mp hu with heq | hmem
          · rw [heq] at hhas
            exact ⟨w', by simp, le_trans w'.order hxe,
              le_trans hhas.right hbefore.right⟩
          · exact ⟨u, hmem, hhas⟩
      · rintro ⟨hmeets, hcover⟩ e hxe he
        rcases le_total e w.hi with hin | hout
        · exact ⟨w, by simp, le_trans hx.left hxe, hin⟩
        · rcases le_total e w'.hi with hin' | hout'
          · exact ⟨w', by simp, le_trans hmeets hout, hin'⟩
          · rcases hcover e hout' he with ⟨u, hu, hhas⟩
            exact ⟨u, List.mem_cons_of_mem w hu, hhas⟩

end Covering

end Foundation
end Breakin
