import Mathlib.Data.List.Induction

/-!
# Runs of a labelled transition system

A system is given by a partial step function on labelled actions: an action is
enabled in a state when the step function is defined there, and the label
resolves every choice the environment makes.  Runs are finite action lists.  The
rules below turn facts about one step into facts about every run.
-/

namespace Breakin
namespace Foundation

variable {state action : Type}

def runFrom (step : state -> action -> Option state) :
    state -> List action -> Option state
  | s, [] => some s
  | s, a :: rest =>
      match step s a with
      | none => none
      | some t => runFrom step t rest

section Basic

variable {step : state -> action -> Option state}

@[simp] theorem runFrom_nil (s : state) : runFrom step s [] = some s := rfl

theorem runFrom_cons_some {s u : state} {a : action} {rest : List action} :
    runFrom step s (a :: rest) = some u <->
      exists t, step s a = some t ∧ runFrom step t rest = some u := by
  cases hstep : step s a with
  | none => simp [runFrom, hstep]
  | some t => simp [runFrom, hstep]

theorem runFrom_append {s u : state} {left right : List action} :
    runFrom step s (left ++ right) = some u <->
      exists t, runFrom step s left = some t ∧
        runFrom step t right = some u := by
  induction left generalizing s with
  | nil => simp
  | cons a rest ih =>
      rw [List.cons_append, runFrom_cons_some]
      constructor
      · rintro ⟨t, hstep, hrun⟩
        rcases ih.mp hrun with ⟨v, hleft, hright⟩
        exact ⟨v, runFrom_cons_some.mpr ⟨t, hstep, hleft⟩, hright⟩
      · rintro ⟨v, hleft, hright⟩
        rcases runFrom_cons_some.mp hleft with ⟨t, hstep, hrun⟩
        exact ⟨t, hstep, ih.mpr ⟨v, hrun, hright⟩⟩

theorem runFrom_snoc {s u : state} {acts : List action} {a : action} :
    runFrom step s (acts ++ [a]) = some u <->
      exists t, runFrom step s acts = some t ∧ step t a = some u := by
  rw [runFrom_append]
  constructor
  · rintro ⟨t, hrun, hlast⟩
    rcases runFrom_cons_some.mp hlast with ⟨v, hstep, hnil⟩
    cases hnil
    exact ⟨t, hrun, hstep⟩
  · rintro ⟨t, hrun, hstep⟩
    exact ⟨t, hrun, runFrom_cons_some.mpr ⟨u, hstep, rfl⟩⟩

end Basic

/-!
# Properties along a run

`Along` speaks about every state a run passes through, and
`StepsMeet` about every step it takes, together with the state before it.
-/

def Along (step : state -> action -> Option state) (s : state)
    (acts : List action) (P : state -> Prop) : Prop :=
  forall pre post t,
    acts = pre ++ post -> runFrom step s pre = some t -> P t

def StepsMeet (step : state -> action -> Option state) (s : state)
    (acts : List action) (C : state -> action -> Prop) : Prop :=
  forall pre a post t,
    acts = pre ++ a :: post -> runFrom step s pre = some t -> C t a

section Rules

variable {step : state -> action -> Option state}

theorem StepsMeet.of_append {s : state} {left right : List action}
    {C : state -> action -> Prop} (h : StepsMeet step s (left ++ right) C) :
    StepsMeet step s left C := by
  intro pre a post t hacts hrun
  exact h pre a (post ++ right) t (by simp [hacts]) hrun

theorem stepsMeet_of_mem {s : state} {acts : List action}
    {L : action -> Prop} (h : forall a, a ∈ acts -> L a) :
    StepsMeet step s acts fun _ a => L a := by
  intro pre a post t hacts _
  apply h
  rw [hacts]
  exact List.mem_append_right pre (List.mem_cons_self ..)

theorem StepsMeet.last {s t : state} {acts : List action} {a : action}
    {C : state -> action -> Prop} (h : StepsMeet step s (acts ++ [a]) C)
    (hrun : runFrom step s acts = some t) : C t a :=
  h acts a [] t rfl hrun

theorem stepsMeet_snoc {s t : state} {acts : List action} {a : action}
    {C : state -> action -> Prop} (hrun : runFrom step s acts = some t) :
    StepsMeet step s (acts ++ [a]) C <-> StepsMeet step s acts C ∧ C t a := by
  constructor
  · intro h
    exact ⟨h.of_append, h.last hrun⟩
  · rintro ⟨hacts, hlast⟩ pre b post u heq hpre
    rcases List.eq_nil_or_concat post with hnil | ⟨post', c, hpost⟩
    · rw [hnil] at heq
      rcases List.append_inj' heq rfl with ⟨hsame, hb⟩
      rw [← hsame, hrun] at hpre
      cases hpre
      cases hb
      exact hlast
    · rw [hpost, List.concat_eq_append, ← List.cons_append,
        ← List.append_assoc] at heq
      exact hacts pre b post' u (List.append_inj' heq rfl).left hpre

/-- The invariant rule: what the first state has and every step that meets
`C` keeps, every state of a run whose steps meet `C` has. -/
theorem runFrom_invariant {C : state -> action -> Prop} {P : state -> Prop}
    (hkeep : forall s a t, P s -> C s a -> step s a = some t -> P t)
    {s t : state} {acts : List action} (hstart : P s)
    (hmeet : StepsMeet step s acts C)
    (hrun : runFrom step s acts = some t) : P t := by
  induction acts using List.reverseRecOn generalizing t with
  | nil =>
      cases hrun
      exact hstart
  | append_singleton acts a ih =>
      rcases runFrom_snoc.mp hrun with ⟨u, hpre, hstep⟩
      exact hkeep u a t (ih hmeet.of_append hpre) (hmeet.last hpre) hstep

/-- Induction on a run by its last step, with the history at hand. -/
theorem runFrom_history {s : state} {R : List action -> state -> Prop}
    (hstart : R [] s)
    (hkeep : forall acts a t u, runFrom step s acts = some t -> R acts t ->
      step t a = some u -> R (acts ++ [a]) u)
    {acts : List action} {t : state}
    (hrun : runFrom step s acts = some t) : R acts t := by
  induction acts using List.reverseRecOn generalizing t with
  | nil =>
      cases hrun
      exact hstart
  | append_singleton acts a ih =>
      rcases runFrom_snoc.mp hrun with ⟨u, hpre, hstep⟩
      exact hkeep acts a u t hpre (ih hpre) hstep

theorem along_invariant {C : state -> action -> Prop} {P : state -> Prop}
    (hkeep : forall s a t, P s -> C s a -> step s a = some t -> P t)
    {s : state} {acts : List action} (hstart : P s)
    (hmeet : StepsMeet step s acts C) : Along step s acts P := by
  intro pre post t hacts hrun
  rw [hacts] at hmeet
  exact runFrom_invariant hkeep hstart hmeet.of_append hrun

/-- Where a condition says of every step exactly that it leads to a good state,
the good runs are those whose steps meet it; `I` is known of every state. -/
theorem along_iff_stepsMeet {C : state -> action -> Prop}
    {I P : state -> Prop}
    (hinv : forall s a t, I s -> step s a = some t -> I t)
    (hiff : forall s a, I s -> P s ->
      (C s a <-> forall t, step s a = some t -> P t))
    {s : state} {acts : List action} (hI : I s) (hP : P s) :
    Along step s acts P <-> StepsMeet step s acts C := by
  constructor
  · intro halong pre a post t hacts hrun
    have hIt : I t := runFrom_history (R := fun _ s => I s) hI
      (fun _ a t u _ ih hstep => hinv t a u ih hstep) hrun
    rw [hiff t a hIt (halong pre (a :: post) t hacts hrun)]
    intro u hstep
    exact halong (pre ++ [a]) post u (by simp [hacts])
      (runFrom_snoc.mpr ⟨t, hrun, hstep⟩)
  · intro hmeet pre post t hacts hrun
    have hgood : Along step s acts fun s => I s ∧ P s :=
      along_invariant
        (fun s a t hs hC hstep => ⟨hinv s a t hs.left hstep,
          (hiff s a hs.left hs.right).mp hC t hstep⟩)
        ⟨hI, hP⟩ hmeet
    exact (hgood pre post t hacts hrun).right

/-- The progress rule: steps that every good state takes into a good state make
up a run to the end. -/
theorem runFrom_total {P : state -> Prop} {L : action -> Prop}
    (hgo : forall s a, P s -> L a -> exists t, step s a = some t ∧ P t)
    {s : state} (hs : P s) {acts : List action}
    (hacts : forall a, a ∈ acts -> L a) :
    exists t, runFrom step s acts = some t ∧ P t := by
  induction acts generalizing s with
  | nil => exact ⟨s, rfl, hs⟩
  | cons a rest ih =>
      rcases hgo s a hs (hacts a (List.mem_cons_self ..)) with ⟨t, hstep, ht⟩
      rcases ih ht fun b hb => hacts b (List.mem_cons_of_mem a hb)
        with ⟨u, hrun, hu⟩
      exact ⟨u, runFrom_cons_some.mpr ⟨t, hstep, hrun⟩, hu⟩

/-- The ranking rule: where no step makes the rank grow and every step that `c`
counts makes it smaller, a run has no more of them than the rank it begins with. -/
theorem countP_le_rank {C : state -> action -> Prop} {P : state -> Prop}
    {rank : state -> Nat} {c : action -> Bool}
    (hkeep : forall s a t, P s -> C s a -> step s a = some t ->
      P t ∧ rank t + (if c a then 1 else 0) ≤ rank s)
    {s t : state} {acts : List action} (hstart : P s)
    (hmeet : StepsMeet step s acts C)
    (hrun : runFrom step s acts = some t) : acts.countP c ≤ rank s := by
  have hboth : P t ∧ rank t + acts.countP c ≤ rank s := by
    induction acts using List.reverseRecOn generalizing t with
    | nil =>
        cases hrun
        exact ⟨hstart, Nat.le_refl _⟩
    | append_singleton acts a ih =>
        rcases runFrom_snoc.mp hrun with ⟨u, hpre, hstep⟩
        rcases ih hmeet.of_append hpre with ⟨hu, hle⟩
        rcases hkeep u a t hu (hmeet.last hpre) hstep with ⟨ht, hsmaller⟩
        rw [List.countP_append, List.countP_singleton]
        exact ⟨ht, by omega⟩
  omega

/-- The descent rule: where every good state that is not at the goal has a step
down, the goal is reached in no more steps than the rank. -/
theorem runFrom_descends {P goal : state -> Prop} {L : action -> Prop}
    {rank : state -> Nat}
    (hgo : forall s, P s -> ¬ goal s ->
      exists a t, L a ∧ step s a = some t ∧ P t ∧ rank t < rank s)
    {s : state} (hs : P s) :
    exists acts t, (forall a, a ∈ acts -> L a) ∧ runFrom step s acts = some t ∧
      goal t ∧ acts.length ≤ rank s := by
  induction hn : rank s using Nat.strongRecOn generalizing s with
  | ind n ih =>
      by_cases hgoal : goal s
      · exact ⟨[], s, by simp, rfl, hgoal, Nat.zero_le n⟩
      · rcases hgo s hs hgoal with ⟨a, t, ha, hstep, ht, hlt⟩
        rcases ih (rank t) (hn ▸ hlt) ht rfl with
          ⟨acts, u, hacts, hrun, hu, hlen⟩
        refine ⟨a :: acts, u, List.forall_mem_cons.mpr ⟨ha, hacts⟩,
          runFrom_cons_some.mpr ⟨t, hstep, hrun⟩, hu, ?_⟩
        exact hn ▸ Nat.lt_of_le_of_lt hlen hlt

end Rules

/-!
# Checking a concrete run
-/

section Check

variable {step : state -> action -> Option state}

def checkSteps (step : state -> action -> Option state)
    (c : state -> action -> Bool) : state -> List action -> Bool
  | _, [] => true
  | s, a :: rest =>
      c s a &&
        match step s a with
        | none => true
        | some t => checkSteps step c t rest

theorem stepsMeet_of_check {C : state -> action -> Prop}
    [forall s a, Decidable (C s a)] {s : state} {acts : List action}
    (h : checkSteps step (fun s a => decide (C s a)) s acts = true) :
    StepsMeet step s acts C := by
  induction acts generalizing s with
  | nil =>
      intro pre a post t hacts
      cases pre <;> cases hacts
  | cons b rest ih =>
      intro pre a post t hacts hrun
      rw [checkSteps, Bool.and_eq_true, decide_eq_true_eq] at h
      cases pre with
      | nil =>
          cases hacts
          cases hrun
          exact h.left
      | cons b' pre =>
          rw [List.cons_append, List.cons.injEq] at hacts
          rw [← hacts.left] at hrun
          rcases runFrom_cons_some.mp hrun with ⟨u, hstep, hpre⟩
          have hrest := h.right
          rw [hstep] at hrest
          exact ih hrest pre a post t hacts.right hpre

end Check

end Foundation
end Breakin
