import Breakin.Scheduler.FindTests
import Breakin.Scheduler.Launches

/-!
# What the table says about a launch

A move changes the state of a slot, never the test it stands for.  What a run
launches is therefore always one of the tests that were found.
-/

namespace Breakin
namespace Scheduler

open Foundation

def BurninScript.test (script : BurninScript) : CString × CString :=
  (script.name, script.path)

theorem map_modify_same {f : α -> β} {g : α -> α} (h : forall a, f (g a) = f a)
    (l : List α) (i : Nat) : (l.modify i g).map f = l.map f := by
  induction l generalizing i with
  | nil => rw [List.modify_nil]
  | cons a l ih =>
      cases i with
      | zero => simp [h]
      | succ i => simp [ih]

theorem classify_test (script : BurninScript) (res : WaitOutcome) :
    (classify script res).test = script.test := by
  cases res with
  | error => rfl
  | nochange => rfl
  | status status =>
      cases status with
      | signaled sig => rfl
      | exited code =>
          unfold classify
          dsimp only
          split
          · rfl
          · split
            · rfl
            · rfl

theorem Move.tests {scripts scripts' : List BurninScript} {label : MoveLabel}
    {pc pc' : PC} (h : Move scripts label pc scripts' pc') :
    scripts'.map BurninScript.test = scripts.map BurninScript.test := by
  cases h with
  | launched ret =>
      exact map_modify_same (g := launchedSlot ret) (fun _ => rfl) scripts _
  | delivered data =>
      exact map_modify_same (g := fun s => deliver s data) (fun _ => rfl) scripts _
  | classified res => exact map_modify_same (fun s => classify_test s res) _ _
  | _ => rfl

theorem Move.launch_inTable {scripts scripts' : List BurninScript}
    {label : MoveLabel} {pc pc' : PC} (h : Move scripts label pc scripts' pc')
    {i : Nat} (hi : slotOf label = some i) : i < scripts.length := by
  cases h with
  | launched ret hscript =>
      rw [← Option.some.inj hi]
      exact (List.getElem?_eq_some_iff.mp hscript).choose
  | _ => cases hi

theorem MainStep.tests {m m' : Memory} {a : Action} (h : MainStep m a m')
    (hforeign : ¬ Foreign a) :
    m'.scripts.map BurninScript.test = m.scripts.map BurninScript.test ∧
      forall i, launchOf a = some i -> i < m.scripts.length := by
  cases h with
  | other hmain hsame hlaunch hawake =>
      rw [hsame, hlaunch hforeign]
      exact ⟨rfl, fun i hi => nomatch hi⟩
  | move hmain hmain' hmove hlaunch hwake =>
      rw [hlaunch]
      exact ⟨hmove.tests, fun i hi => hmove.launch_inTable hi⟩

/-- In every run the table keeps the tests that were found, and what is launched is
one of them. -/
theorem launched_inTable {pid : Nat} {tests : List CString} {acts : List Action}
    {w : World} (hrun : ExecRun (start pid tests) acts w) :
    forall i, i ∈ launchedIn acts -> i < tests.length := by
  have hkeep : forall acts a u v v', Good u v ->
      (v.mem.scripts.map BurninScript.test =
          tests.map (fun name => (BurninScript.found name).test) ∧
        forall i, i ∈ launchedIn acts -> i < tests.length) ->
      RootStep v a v' -> ¬ Foreign a -> ¬ ExecveFails a ->
        v'.mem.scripts.map BurninScript.test =
            tests.map (fun name => (BurninScript.found name).test) ∧
          forall i, i ∈ launchedIn (acts ++ [a]) -> i < tests.length := by
    rintro acts a u v v' hgood ⟨htests, hlaunched⟩ hroot hforeign _
    rcases (hroot.mainStep hgood.control.threads).tests hforeign with ⟨hsame, hnew⟩
    have hlength : v.mem.scripts.length = tests.length := by
      have hlen := congrArg List.length htests
      rwa [List.length_map, List.length_map] at hlen
    constructor
    · rw [hsame, htests]
    · intro i hi
      rw [launchedIn_snoc, List.mem_append] at hi
      rcases hi with hold | hhere
      · exact hlaunched i hold
      · rw [← hlength]
        exact hnew i (Option.mem_toList.mp hhere)
  have hstart : (startView tests).mem.scripts.map BurninScript.test =
        tests.map (fun name => (BurninScript.found name).test) ∧
      forall i, i ∈ launchedIn [] -> i < tests.length :=
    ⟨List.map_map, fun i hi => nomatch hi⟩
  rcases good_history (good_start pid tests) hstart hkeep hrun with ⟨_, _, _, hall⟩
  exact hall

/-- A test that was found is visible, and not the one that the disable list names
first. -/
theorem keptNames_first {names listing : List CString} {name : CString}
    (h : name ∈ keptNames names listing) :
    name ∈ listing ∧ name.head? ≠ some '.' ∧ some name ≠ names.head? := by
  have hkept : forall {names' : List CString}, keptBy names' name = true ->
      name.head? ≠ some '.' ∧ name ∉ names' := by
    intro names' hkept
    unfold keptBy at hkept
    rw [Bool.and_eq_true, decide_eq_true_eq, decide_eq_true_eq] at hkept
    exact hkept
  have hfirst : name ∉ names.take 1 -> some name ≠ names.head? := by
    intro hnot heq
    cases names with
    | nil => cases heq
    | cons first rest =>
        cases heq
        exact hnot List.mem_cons_self
  cases listing with
  | nil => cases h
  | cons entry rest =>
      rcases List.mem_append.mp h with hhere | hlater
      · split at hhere
        · rename_i hentry
          rw [List.mem_singleton.mp hhere] at hkept hfirst ⊢
          rcases hkept hentry with ⟨hdot, hnot⟩
          exact ⟨List.mem_cons_self, hdot,
            hfirst fun hin => hnot (List.mem_of_mem_take hin)⟩
        · cases hhere
      · rcases List.mem_filter.mp hlater with ⟨hin, hentry⟩
        rcases hkept hentry with ⟨hdot, hnot⟩
        exact ⟨List.mem_cons_of_mem entry hin, hdot, hfirst hnot⟩

end Scheduler
end Breakin
