import Breakin.Foundation.Runs

/-!
# Runs seen through an abstract system

A step of the concrete system shows a list of events of an abstract one, often
none.  When every step takes related states to related states along the events it
shows, every run of the concrete system is a run of the abstract one.
-/

namespace Breakin
namespace Foundation

variable {state action abstract event : Type}

def shown (step : state -> action -> Option state)
    (obs : state -> action -> List event) : state -> List action -> List event
  | _, [] => []
  | s, a :: rest =>
      obs s a ++
        match step s a with
        | none => []
        | some t => shown step obs t rest

variable {step : state -> action -> Option state}
  {obs : state -> action -> List event}

theorem shown_snoc {s t : state} {acts : List action} (a : action)
    (hrun : runFrom step s acts = some t) :
    shown step obs s (acts ++ [a]) = shown step obs s acts ++ obs t a := by
  induction acts generalizing s with
  | nil =>
      cases hrun
      rw [List.nil_append, shown, shown, List.nil_append]
      cases step t a <;> simp only [shown, List.append_nil]
  | cons b rest ih =>
      rcases runFrom_cons_some.mp hrun with ⟨u, hstep, hrest⟩
      rw [List.cons_append, shown, shown, hstep]
      simp only
      rw [ih hrest, List.append_assoc]

theorem shown_countP {s t : state} {acts : List action} {p : event -> Bool}
    {q : action -> Bool}
    (hone : forall s a t, step s a = some t ->
      (obs s a).countP p = if q a then 1 else 0)
    (hrun : runFrom step s acts = some t) :
    (shown step obs s acts).countP p = acts.countP q := by
  refine runFrom_history (R := fun acts _ =>
    (shown step obs s acts).countP p = acts.countP q) rfl ?_ hrun
  intro acts a u v hpre ih hstep
  rw [shown_snoc a hpre, List.countP_append, List.countP_append, ih,
    hone u a v hstep, List.countP_singleton]

/-- The simulation rule. -/
theorem refines_run {astep : abstract -> event -> Option abstract}
    {R : state -> abstract -> Prop}
    (hkeep : forall s x a t, R s x -> step s a = some t ->
      exists y, runFrom astep x (obs s a) = some y ∧ R t y)
    {s t : state} {x : abstract} {acts : List action} (hstart : R s x)
    (hrun : runFrom step s acts = some t) :
    exists y, runFrom astep x (shown step obs s acts) = some y ∧ R t y := by
  refine runFrom_history (R := fun acts t =>
    exists y, runFrom astep x (shown step obs s acts) = some y ∧ R t y)
    ⟨x, rfl, hstart⟩ ?_ hrun
  intro acts a u v hpre ih hstep
  rcases ih with ⟨y, hy, hR⟩
  rcases hkeep u y a v hR hstep with ⟨z, hz, hR'⟩
  rw [shown_snoc a hpre]
  exact ⟨z, runFrom_append.mpr ⟨y, hy, hz⟩, hR'⟩

end Foundation
end Breakin
