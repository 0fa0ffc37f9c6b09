import Mathlib.Algebra.Order.Floor.Ring
import Mathlib.Algebra.Order.Archimedean.Real.Basic
import Mathlib.Tactic.NormNum
import Mathlib.Tactic.Linarith
import Breakin.Foundation.Shell
import Breakin.Foundation.Windows

/-!
# Machine checks between two runs of mcelog

A run looks back ten seconds from the second it started in, and up to its query.
The scheduler starts the next run when it notices that this one has ended, which
can be more than ten seconds after the query.
-/

namespace Breakin
namespace Scripts

open Foundation
open Foundation.Shell

section Script

variable {K : Type} [Field K] [LinearOrder K] [FloorRing K]

structure McelogVars where
  foundError : Nat
  ts : Int
  date : Int

def McelogVars.unset : McelogVars where
  foundError := 0
  ts := 0
  date := 0

/-- `journalctl -S "${DATE}"` at the time `query` finds one of the events. -/
def journalHas (events : List K) (date : Int) (query : K) : Bool :=
  events.any fun e => decide ((date : K) ≤ e) && decide (e ≤ query)

/-- The script, started when the clock is at `start`. -/
def mcelog (events : List K) (start query : K) : Command McelogVars :=
  block
    [assign fun v => { v with foundError := 0 },
      assign fun v => { v with ts := ⌊start⌋ },
      assign fun v => { v with date := v.ts - 10 },
      ifThen (fun s => journalHas events s.vars.date query)
        (block
          [assign fun v => { v with foundError := 1 },
            external fun _ => 0]),
      -- sleep 10
      external fun _ => 0,
      exit fun v => UInt8.ofNat v.foundError]

def mcelogStatus (events : List K) (start query : K) : UInt8 :=
  (mcelog events start query
    { vars := McelogVars.unset, status := 0, out := [] }).exitStatus

theorem mcelogStatus_eq (events : List K) (start query : K) :
    mcelogStatus events start query =
      if journalHas events (⌊start⌋ - 10) query then 1 else 0 := by
  unfold mcelogStatus mcelog
  simp only [block, Shell.seq, assign, ifThen, Shell.ifElse, external,
    Shell.exit]
  by_cases hfound : journalHas events (⌊start⌋ - 10) query = true
  · simp only [if_pos hfound]
    rfl
  · simp only [if_neg hfound]
    rfl

end Script

/-!
# Timelines
-/

section Timeline

variable (K : Type) [Field K] [LinearOrder K] [FloorRing K]

structure McelogRun where
  start : K
  query : K
  order : start ≤ query

variable {K}

def McelogRun.Next (r r' : McelogRun K) : Prop :=
  r.query + 10 ≤ r'.start

variable (K) in
structure Timeline where
  first : McelogRun K
  later : List (McelogRun K)
  chain : List.IsChain McelogRun.Next (first :: later)

def Timeline.runs (t : Timeline K) : List (McelogRun K) :=
  t.first :: t.later

def Timeline.lastQuery (t : Timeline K) : K :=
  (t.later.getLastD t.first).query

def McelogRun.Covers (r : McelogRun K) (e : K) : Prop :=
  ((⌊r.start⌋ - 10 : Int) : K) ≤ e ∧ e ≤ r.query

def Timeline.AllSeen (t : Timeline K) : Prop :=
  forall events e, e ∈ events -> t.first.start ≤ e -> e ≤ t.lastQuery ->
    exists r, r ∈ t.runs ∧ r.Covers e ∧
      mcelogStatus events r.start r.query = 1

def McelogRun.Prompt (r r' : McelogRun K) : Prop :=
  (⌊r'.start⌋ : K) ≤ r.query + 10

end Timeline

theorem McelogRun.Covers.status {r : McelogRun Real} {events : List Real}
    {e : Real} (h : r.Covers e) (hmem : e ∈ events) :
    mcelogStatus events r.start r.query = 1 := by
  rw [mcelogStatus_eq]
  apply if_pos
  unfold journalHas
  rw [List.any_eq_true]
  refine ⟨e, hmem, ?_⟩
  rw [Bool.and_eq_true]
  exact ⟨decide_eq_true h.left, decide_eq_true h.right⟩

noncomputable def McelogRun.window (r : McelogRun Real) : Window Real where
  lo := ((⌊r.start⌋ - 10 : Int) : Real)
  hi := r.query
  order := by
    have hfloor := Int.floor_le r.start
    have horder := r.order
    push_cast
    linarith

theorem McelogRun.Next.before {r r' : McelogRun Real} (h : r.Next r') :
    r.window.Before r'.window := by
  have hstart : r.start ≤ r'.start := by
    have horder := r.order
    unfold McelogRun.Next at h
    linarith
  have hfloor : ⌊r.start⌋ ≤ ⌊r'.start⌋ := Int.floor_le_floor hstart
  constructor
  · change ((⌊r.start⌋ - 10 : Int) : Real) ≤ ((⌊r'.start⌋ - 10 : Int) : Real)
    exact_mod_cast Int.sub_le_sub_right hfloor 10
  · change r.query ≤ r'.query
    have horder := r'.order
    unfold McelogRun.Next at h
    linarith

theorem McelogRun.meets_iff (r r' : McelogRun Real) :
    r.window.Meets r'.window <-> r.Prompt r' := by
  change ((⌊r'.start⌋ - 10 : Int) : Real) ≤ r.query <-> _
  unfold McelogRun.Prompt
  push_cast
  constructor <;> intro h <;> linarith

theorem lastHi_window (r : McelogRun Real) (rest : List (McelogRun Real)) :
    lastHi r.window (rest.map McelogRun.window) = (rest.getLastD r).query := by
  induction rest generalizing r with
  | nil => rfl
  | cons r' rest ih =>
      rw [List.map_cons, lastHi, ih r', List.getLastD_cons]

/-- The windows of a timeline cover it, so that some run fails for every event,
exactly when each run starts promptly after the one before it. -/
theorem allSeen_iff (t : Timeline Real) :
    t.AllSeen <-> List.IsChain McelogRun.Prompt t.runs := by
  have hbefore : List.IsChain Window.Before
      (t.first.window :: t.later.map McelogRun.window) := by
    rw [← List.map_cons, List.isChain_map]
    exact t.chain.imp fun _ _ h => h.before
  have hx : t.first.window.Has t.first.start := by
    refine ⟨?_, t.first.order⟩
    change ((⌊t.first.start⌋ - 10 : Int) : Real) ≤ t.first.start
    have hfloor := Int.floor_le t.first.start
    push_cast
    linarith
  have hcover := seen_iff_meets hbefore hx
  rw [lastHi_window, ← List.map_cons, List.isChain_map] at hcover
  have hmeets : List.IsChain (fun a b => Window.Meets a.window b.window)
      (t.first :: t.later) <-> List.IsChain McelogRun.Prompt t.runs :=
    ⟨fun h => h.imp fun r r' => (r.meets_iff r').mp,
      fun h => h.imp fun r r' => (r.meets_iff r').mpr⟩
  rw [← hmeets, ← hcover]
  constructor
  · intro hall e hstart hlast
    rcases hall [e] e (by simp) hstart hlast with ⟨r, hr, hcovers, _⟩
    exact ⟨r.window, List.mem_map_of_mem hr, hcovers⟩
  · intro hseen events e hmem hstart hlast
    rcases hseen e hstart hlast with ⟨w, hw, hhas⟩
    rcases List.mem_map.mp hw with ⟨r, hr, heq⟩
    rw [← heq] at hhas
    exact ⟨r, hr, hhas, McelogRun.Covers.status hhas hmem⟩

/-- The first run asks at once, and the next one starts a second late. -/
def lateTimeline : Timeline Real where
  first := { start := 0, query := 0, order := le_refl 0 }
  later := [{ start := 11, query := 11, order := le_refl 11 }]
  chain := by
    rw [List.isChain_cons_cons]
    refine ⟨?_, List.isChain_singleton _⟩
    unfold McelogRun.Next
    norm_num

/-- An event half a second after the first query is in neither window. -/
theorem lateTimeline_not_allSeen : ¬ lateTimeline.AllSeen := by
  intro hall
  rcases hall [1 / 2] (1 / 2) (by simp)
    (by change (0 : Real) ≤ 1 / 2; norm_num)
    (by change (1 / 2 : Real) ≤ 11; norm_num) with ⟨r, hr, hcovers, _⟩
  rcases List.mem_cons.mp hr with heq | htail
  · rw [heq] at hcovers
    have hhigh : (1 / 2 : Real) ≤ 0 := hcovers.right
    norm_num at hhigh
  · rw [List.mem_singleton.mp htail] at hcovers
    have hlow : ((⌊(11 : Real)⌋ - 10 : Int) : Real) ≤ 1 / 2 := hcovers.left
    norm_num at hlow

end Scripts
end Breakin
