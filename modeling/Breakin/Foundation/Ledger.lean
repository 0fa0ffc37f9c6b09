import Mathlib.Data.List.Perm.Basic
import Mathlib.Data.List.Perm.Subperm

/-!
# Resources and their holders

A program opens resources and keeps each of them in one slot of a table.  The
ledger has both sides: what is open, and what the slots hold.  What every slot
holds is open; nothing leaks as long as nothing else is open.
-/

namespace Breakin
namespace Foundation

structure Ledger (resource : Type) where
  opened : List resource
  slots : List (Option resource)

namespace Ledger

variable {resource : Type}

def holdings (l : Ledger resource) : List resource :=
  l.slots.filterMap id

def Sound (l : Ledger resource) : Prop :=
  l.holdings.Subperm l.opened

def Balanced (l : Ledger resource) : Prop :=
  l.opened.Perm l.holdings

theorem Balanced.length_le {l : Ledger resource} (h : l.Balanced) :
    l.opened.length ≤ l.slots.length := by
  rw [h.length_eq]
  exact List.length_filterMap_le id l.slots

theorem Sound.balanced_iff {l : Ledger resource} (h : l.Sound) :
    l.Balanced <-> l.opened.length ≤ l.holdings.length := by
  constructor
  · intro hbalanced
    exact Nat.le_of_eq hbalanced.length_eq
  · intro hlen
    exact (h.perm_of_length_le hlen).symm

theorem holdings_set {slots : List (Option resource)} {i : Nat}
    {old : Option resource} (h : slots[i]? = some old)
    (new : Option resource) :
    exists rest : List resource,
      (slots.filterMap id).Perm (old.toList ++ rest) ∧
        ((slots.set i new).filterMap id).Perm (new.toList ++ rest) := by
  rcases List.getElem?_eq_some_iff.mp h with ⟨hlt, hold⟩
  have hcons : forall x : Option resource,
      (x :: slots.eraseIdx i).filterMap id =
        x.toList ++ (slots.eraseIdx i).filterMap id := by
    intro x
    cases x <;> rfl
  refine ⟨(slots.eraseIdx i).filterMap id, ?_, ?_⟩
  · rw [← hcons, ← hold]
    exact ((List.getElem_cons_eraseIdx_perm hlt).filterMap id).symm
  · rw [← hcons]
    exact (List.set_perm_cons_eraseIdx hlt new).filterMap id

theorem set_same {slots : List (Option resource)} {i : Nat}
    {x : Option resource} (h : slots[i]? = some x) : slots.set i x = slots := by
  rcases List.getElem?_eq_some_iff.mp h with ⟨hlt, heq⟩
  rw [← heq]
  exact List.set_getElem_self hlt

/-!
# Steps
-/

/-- A resource is opened into an empty slot, or closed together with its slot. -/
inductive Kept [DecidableEq resource] :
    Ledger resource -> Ledger resource -> Prop where
  | same {l : Ledger resource} : Kept l l
  | lent {l l' : Ledger resource} (i : Nat) (r : resource) :
      l.slots[i]? = some none ->
      l'.opened = l.opened ++ [r] ->
      l'.slots = l.slots.set i (some r) ->
      Kept l l'
  | returned {l l' : Ledger resource} (i : Nat) (r : resource) :
      l.slots[i]? = some (some r) ->
      l'.opened = l.opened.erase r ->
      l'.slots = l.slots.set i none ->
      Kept l l'

/-- Resources are opened into no slot, or a slot forgets the open one it held. -/
inductive Leaked : Ledger resource -> Ledger resource -> Prop where
  | unheld {l l' : Ledger resource} (r : resource) (rs : List resource) :
      l'.opened = l.opened ++ r :: rs ->
      l'.slots = l.slots ->
      Leaked l l'
  | dropped {l l' : Ledger resource} (i : Nat) (r : resource) :
      l.slots[i]? = some (some r) ->
      l'.opened = l.opened ->
      l'.slots = l.slots.set i none ->
      Leaked l l'

/-- A step that keeps the ledger when `c` holds, and leaks when it does not. -/
def Step [DecidableEq resource] (c : Prop) (l l' : Ledger resource) : Prop :=
  (c ∧ Kept l l') ∨ (¬ c ∧ Leaked l l')

/-- A kept step keeps the ledger as sound and as balanced as it was. -/
theorem Kept.sound [DecidableEq resource] {l l' : Ledger resource}
    (h : Kept l l') (hsound : l.Sound) :
    l'.Sound ∧ (l'.Balanced <-> l.Balanced) := by
  cases h with
  | same => exact ⟨hsound, Iff.rfl⟩
  | lent i r hslot hopened hslots =>
      rcases holdings_set hslot (some r) with ⟨rest, hbefore, hafter⟩
      rw [← hslots] at hafter
      have hsound' : l'.Sound := by
        unfold Sound holdings
        rw [hafter.subperm_right, hopened]
        have hcons := (List.subperm_cons r).mpr (hbefore.subperm_right.mp hsound)
        exact (List.perm_append_singleton r l.opened).symm.subperm_left.mp hcons
      refine ⟨hsound', ?_⟩
      rw [hsound'.balanced_iff, hsound.balanced_iff]
      unfold holdings
      rw [hbefore.length_eq, hafter.length_eq, hopened]
      simp
  | returned i r hslot hopened hslots =>
      rcases holdings_set hslot none with ⟨rest, hbefore, hafter⟩
      rw [← hslots] at hafter
      have hcons : (r :: rest).Subperm l.opened :=
        hbefore.subperm_right.mp hsound
      have hmem : r ∈ l.opened := hcons.subset (List.mem_cons_self ..)
      have hsound' : l'.Sound := by
        unfold Sound holdings
        rw [hafter.subperm_right, hopened]
        have herase := hcons.erase r
        rw [List.erase_cons_head] at herase
        exact herase
      refine ⟨hsound', ?_⟩
      rw [hsound'.balanced_iff, hsound.balanced_iff]
      unfold holdings
      have hpos : 0 < l.opened.length := List.length_pos_of_mem hmem
      rw [hbefore.length_eq, hafter.length_eq, hopened,
        List.length_erase_of_mem hmem]
      simp only [Option.toList_none, Option.toList_some, List.nil_append,
        List.cons_append, List.length_cons]
      omega

/-- What leaks is open for good: no slot holds it. -/
theorem Leaked.sound {l l' : Ledger resource} (h : Leaked l l')
    (hsound : l.Sound) : l'.Sound ∧ ¬ l'.Balanced := by
  have hlen : l.holdings.length ≤ l.opened.length := hsound.length_le
  cases h with
  | unheld r rs hopened hslots =>
      have hsame : l'.holdings = l.holdings := by
        unfold holdings
        rw [hslots]
      have hsound' : l'.Sound := by
        unfold Sound
        rw [hsame, hopened]
        exact hsound.trans (List.sublist_append_left _ _).subperm
      refine ⟨hsound', ?_⟩
      rw [hsound'.balanced_iff, hsame, hopened, List.length_append,
        List.length_cons]
      omega
  | dropped i r hslot hopened hslots =>
      rcases holdings_set hslot none with ⟨rest, hbefore, hafter⟩
      rw [← hslots] at hafter
      have hcons : (r :: rest).Subperm l.opened :=
        hbefore.subperm_right.mp hsound
      have hsound' : l'.Sound := by
        unfold Sound holdings
        rw [hafter.subperm_right, hopened]
        exact (List.sublist_cons_self r rest).subperm.trans hcons
      refine ⟨hsound', ?_⟩
      have hrest := hcons.length_le
      rw [hsound'.balanced_iff]
      unfold holdings
      rw [hafter.length_eq, hopened]
      simp only [Option.toList_none, List.nil_append]
      rw [List.length_cons] at hrest
      omega

theorem Step.sound [DecidableEq resource] {c : Prop}
    {l l' : Ledger resource} (h : Step c l l') (hsound : l.Sound) :
    l'.Sound ∧ (l'.Balanced <-> l.Balanced ∧ c) := by
  rcases h with ⟨hc, hkept⟩ | ⟨hc, hleaked⟩
  · rcases hkept.sound hsound with ⟨hsound', hiff⟩
    refine ⟨hsound', ?_⟩
    rw [hiff]
    constructor
    · intro hbalanced
      exact ⟨hbalanced, hc⟩
    · intro hboth
      exact hboth.left
  · rcases hleaked.sound hsound with ⟨hsound', hnot⟩
    refine ⟨hsound', ?_⟩
    constructor
    · intro hbalanced
      exact absurd hbalanced hnot
    · intro hboth
      exact absurd hboth.right hc

end Ledger
end Foundation
end Breakin
