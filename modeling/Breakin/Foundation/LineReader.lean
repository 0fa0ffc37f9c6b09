import Mathlib.Algebra.Order.Ring.Nat
import Breakin.Foundation.Pipe
import Breakin.Foundation.Runs

/-!
# Reading a stream line by line

The writer of a pipe and a reader that calls `fgets` take turns in any order.  The
reader keeps nothing from one call to the next, so it gets the lines of the
stream exactly when no call finds the beginning of a line without its end.
-/

namespace Breakin
namespace Foundation

inductive PipeEvent where
  | write (bytes : List Char)
  | fgets
deriving DecidableEq

def Pipe.event (size : Nat) (p : Pipe) : PipeEvent -> Option Pipe
  | .write bytes => some (p.write bytes)
  | .fgets =>
      match p.fgets size with
      | none => some p
      | some (_, q) => some q

/-- A call of `fgets` finds nothing, or a line with its end. -/
def FindsLine (p : Pipe) : PipeEvent -> Prop
  | .write _ => True
  | .fgets => p.unread = [] ∨ '\n' ∈ p.unread

instance (p : Pipe) : DecidablePred (FindsLine p)
  | .write _ => isTrue trivial
  | .fgets => inferInstanceAs (Decidable (_ ∨ _))

def lineOf (body : List Char) : List Char :=
  body ++ ['\n']

def streamOf (bodies : List (List Char)) : List Char :=
  (bodies.map lineOf).flatten

theorem streamOf_take_drop (bodies : List (List Char)) (n : Nat) :
    streamOf (bodies.take n) ++ streamOf (bodies.drop n) = streamOf bodies := by
  unfold streamOf
  rw [← List.flatten_append, ← List.map_append, List.take_append_drop]

theorem streamOf_count (bodies : List (List Char))
    (h : forall b, b ∈ bodies -> '\n' ∉ b) :
    (streamOf bodies).count '\n' = bodies.length := by
  induction bodies with
  | nil => rfl
  | cons b rest ih =>
      have hb : b.count '\n' = 0 := List.count_eq_zero.mpr (h b (by simp))
      have hrest := ih fun b' hb' => h b' (List.mem_cons_of_mem b hb')
      unfold streamOf at hrest ⊢
      rw [List.map_cons, List.flatten_cons, List.count_append, hrest]
      simp [lineOf, hb, Nat.add_comm]

/-!
# The first line of what has arrived
-/

theorem firstLine_count (avail : List Char) :
    (firstLine avail).count '\n' ≤ 1 := by
  induction avail with
  | nil => simp [firstLine]
  | cons c rest ih =>
      by_cases hc : c = '\n'
      · simp [firstLine, hc]
      · simp [firstLine, hc, ih]

theorem firstLine_of_arrived {body more avail : List Char}
    (hbody : '\n' ∉ body) (hpre : avail <+: lineOf body ++ more)
    (hend : '\n' ∈ avail) : firstLine avail = lineOf body := by
  induction body generalizing avail with
  | nil =>
      cases avail with
      | nil => cases hend
      | cons c rest =>
          have hc : c = '\n' := (List.cons_prefix_cons.mp hpre).left
          simp [firstLine, hc, lineOf]
  | cons b body ih =>
      rw [List.mem_cons, not_or] at hbody
      cases avail with
      | nil => cases hend
      | cons c rest =>
          rcases List.cons_prefix_cons.mp hpre with ⟨hc, hrest⟩
          rw [hc] at hend ⊢
          have hend' : '\n' ∈ rest :=
            (List.mem_cons.mp hend).resolve_left hbody.left
          have hline := ih hbody.right hrest hend'
          simp [firstLine, Ne.symm hbody.left, hline, lineOf]

/-!
# What an event keeps
-/

section Events

variable {size : Nat} {p q : Pipe}

theorem event_cases {e : PipeEvent} (h : p.event size e = some q) :
    (exists bytes, e = .write bytes ∧ q = p.write bytes) ∨
      (e = .fgets ∧ p.unread = [] ∧ q = p) ∨
      (e = .fgets ∧ exists c rest, p.unread = c :: rest ∧
        q.written = p.written ∧
          q.reads = p.reads ++ [(firstLine p.unread).take (size - 1)]) := by
  cases e with
  | write bytes =>
      cases h
      exact Or.inl ⟨bytes, rfl, rfl⟩
  | fgets =>
      right
      unfold Pipe.event at h
      cases hline : p.fgets size with
      | none =>
          rw [hline] at h
          cases h
          exact Or.inl ⟨rfl, Pipe.fgets_none_iff.mp hline, rfl⟩
      | some result =>
          rcases result with ⟨line, q'⟩
          rw [hline] at h
          cases h
          rcases Pipe.fgets_some hline with ⟨rest, hfgets, hwritten, hreads, _⟩
          right
          cases hunread : p.unread with
          | nil =>
              rw [hunread] at hfgets
              cases hfgets
          | cons c more =>
              rw [hunread] at hfgets
              simp only [Foundation.fgets, Option.some.injEq,
                Prod.mk.injEq] at hfgets
              refine ⟨rfl, c, more, rfl, hwritten, ?_⟩
              rw [hreads, hfgets.left]

theorem event_grows {e : PipeEvent} (h : p.event size e = some q) :
    p.written <+: q.written ∧ p.reads <+: q.reads := by
  rcases event_cases h with ⟨bytes, _, hq⟩ | ⟨_, _, hq⟩ |
    ⟨_, c, rest, _, hwritten, hreads⟩
  · rw [hq]
    exact ⟨List.prefix_append _ _, List.prefix_rfl⟩
  · rw [hq]
    exact ⟨List.prefix_rfl, List.prefix_rfl⟩
  · rw [hwritten, hreads]
    exact ⟨List.prefix_rfl, List.prefix_append _ _⟩

theorem events_grow {evs : List PipeEvent}
    (h : runFrom (Pipe.event size) p evs = some q) :
    p.written <+: q.written ∧ p.reads <+: q.reads := by
  refine runFrom_history (R := fun _ q =>
    p.written <+: q.written ∧ p.reads <+: q.reads)
    ⟨List.prefix_rfl, List.prefix_rfl⟩ ?_ h
  intro evs e t u _hrun ih hevent
  have hgrow := event_grows hevent
  exact ⟨ih.left.trans hgrow.left, ih.right.trans hgrow.right⟩

theorem events_reads_count {evs : List PipeEvent}
    (h : runFrom (Pipe.event size) Pipe.empty evs = some q) :
    forall r, r ∈ q.reads -> r.count '\n' ≤ 1 := by
  refine runFrom_history (R := fun _ (q : Pipe) =>
    forall r, r ∈ q.reads -> r.count '\n' ≤ 1) ?_ ?_ h
  · intro r hr
    cases hr
  · intro evs e t u _hrun ih hevent r hr
    rcases event_cases hevent with ⟨bytes, _, hq⟩ | ⟨_, _, hq⟩ |
      ⟨_, c, rest, _, _, hreads⟩
    · rw [hq] at hr
      exact ih r hr
    · rw [hq] at hr
      exact ih r hr
    · rw [hreads] at hr
      rcases List.mem_append.mp hr with hold | hnew
      · exact ih r hold
      · rw [List.mem_singleton.mp hnew]
        exact Nat.le_trans
          ((List.take_sublist _ _).count_le '\n') (firstLine_count _)

end Events

/-!
# The reads are the lines
-/

section Lines

variable {size : Nat} {bodies : List (List Char)}

theorem next_line {p : Pipe} {n : Nat}
    (hbodies : forall b, b ∈ bodies -> '\n' ∉ b ∧ b.length + 1 < size)
    (hpre : p.written <+: streamOf bodies)
    (hreads : p.reads = (bodies.take n).map lineOf)
    (hend : '\n' ∈ p.unread) :
    exists b, bodies[n]? = some b ∧
      (firstLine p.unread).take (size - 1) = lineOf b := by
  have hunread : p.unread <+: streamOf (bodies.drop n) := by
    rw [← p.account, hreads, ← streamOf_take_drop bodies n] at hpre
    exact (List.prefix_append_right_inj _).mp hpre
  cases hdrop : bodies.drop n with
  | nil =>
      rw [hdrop] at hunread
      rw [List.prefix_nil.mp hunread] at hend
      cases hend
  | cons b rest =>
      have hn : bodies[n]? = some b := by
        rw [← List.head?_drop, hdrop]
        rfl
      rcases hbodies b (List.mem_of_getElem? hn) with ⟨hbody, hlen⟩
      rw [hdrop] at hunread
      have hline : firstLine p.unread = lineOf b :=
        firstLine_of_arrived hbody hunread hend
      refine ⟨b, hn, ?_⟩
      rw [hline]
      apply List.take_of_length_le
      simp only [lineOf, List.length_append, List.length_singleton]
      omega

/-- The step and run lemma: the calls that find lines read the lines in order. -/
theorem reads_lines_so_far {evs : List PipeEvent} {p : Pipe}
    (hbodies : forall b, b ∈ bodies -> '\n' ∉ b ∧ b.length + 1 < size)
    (hrun : runFrom (Pipe.event size) Pipe.empty evs = some p)
    (hpre : p.written <+: streamOf bodies)
    (hmeet : StepsMeet (Pipe.event size) Pipe.empty evs FindsLine) :
    exists n, p.reads = (bodies.take n).map lineOf := by
  revert hpre hmeet
  refine runFrom_history (R := fun evs (p : Pipe) =>
    p.written <+: streamOf bodies ->
      StepsMeet (Pipe.event size) Pipe.empty evs FindsLine ->
        exists n, p.reads = (bodies.take n).map lineOf) ?_ ?_ hrun
  · intro _ _
    exact ⟨0, by simp [Pipe.empty]⟩
  · intro evs e t u hrun' ih hevent hpre hmeet
    have hpre' := (event_grows hevent).left.trans hpre
    rcases ih hpre' hmeet.of_append with ⟨n, hreads⟩
    rcases event_cases hevent with ⟨bytes, _, hq⟩ | ⟨_, _, hq⟩ |
      ⟨he, c, rest, hunread, _, hnew⟩
    · exact ⟨n, by rw [hq, Pipe.write_reads, hreads]⟩
    · exact ⟨n, by rw [hq, hreads]⟩
    · have hfinds := hmeet.last hrun'
      rw [he] at hfinds
      have hend : '\n' ∈ t.unread := by
        rcases hfinds with hempty | hend
        · rw [hempty] at hunread
          cases hunread
        · exact hend
      rcases next_line hbodies hpre' hreads hend with ⟨b, hn, hline⟩
      refine ⟨n + 1, ?_⟩
      rw [hnew, hline, hreads, List.take_add_one, hn]
      simp

theorem reads_eq_lines {evs : List PipeEvent} {p : Pipe}
    (hbodies : forall b, b ∈ bodies -> '\n' ∉ b ∧ b.length + 1 < size)
    (hrun : runFrom (Pipe.event size) Pipe.empty evs = some p)
    (hwritten : p.written = streamOf bodies) (hread : p.unread = [])
    (hmeet : StepsMeet (Pipe.event size) Pipe.empty evs FindsLine) :
    p.reads = bodies.map lineOf := by
  rcases reads_lines_so_far hbodies hrun (hwritten ▸ List.prefix_rfl)
    hmeet with ⟨n, hreads⟩
  have hflat : streamOf (bodies.take n) = streamOf bodies := by
    rw [← hwritten, ← p.account, hread, hreads, List.append_nil]
    rfl
  have hrest : streamOf (bodies.drop n) = [] := by
    have hsplit := streamOf_take_drop bodies n
    rw [hflat] at hsplit
    exact List.append_right_eq_self.mp hsplit
  cases hdrop : bodies.drop n with
  | nil =>
      rw [hreads, List.take_of_length_le (List.drop_eq_nil_iff.mp hdrop)]
  | cons b rest =>
      rw [hdrop] at hrest
      simp [streamOf, lineOf] at hrest

theorem sum_le_length {l : List (List Char)} {f : List Char -> Nat}
    (hle : forall r, r ∈ l -> f r ≤ 1) : (l.map f).sum ≤ l.length := by
  induction l with
  | nil => exact Nat.le_refl 0
  | cons r rest ih =>
      have hr := hle r (by simp)
      have hrest := ih fun r' hr' => hle r' (List.mem_cons_of_mem r hr')
      rw [List.map_cons, List.sum_cons, List.length_cons]
      omega

theorem sum_lt_length {l : List (List Char)} {f : List Char -> Nat}
    (hle : forall r, r ∈ l -> f r ≤ 1) {r0 : List Char} (hmem : r0 ∈ l)
    (hzero : f r0 = 0) : (l.map f).sum < l.length := by
  induction l with
  | nil => cases hmem
  | cons r rest ih =>
      have hr := hle r (by simp)
      have htail : forall r', r' ∈ rest -> f r' ≤ 1 :=
        fun r' hr' => hle r' (List.mem_cons_of_mem r hr')
      have hrest := sum_le_length htail
      rw [List.map_cons, List.sum_cons, List.length_cons]
      rcases List.mem_cons.mp hmem with heq | hin
      · rw [← heq, hzero]
        omega
      · have hlt := ih htail hin
        omega

/-- As many reads as lines leave no call with a fragment. -/
theorem findsLine_of_length {evs : List PipeEvent} {p : Pipe}
    (hbodies : forall b, b ∈ bodies -> '\n' ∉ b)
    (hrun : runFrom (Pipe.event size) Pipe.empty evs = some p)
    (hwritten : p.written = streamOf bodies) (hread : p.unread = [])
    (hlength : p.reads.length = bodies.length) :
    StepsMeet (Pipe.event size) Pipe.empty evs FindsLine := by
  intro pre e post t hevs hpre
  cases e with
  | write bytes => trivial
  | fgets =>
      apply Classical.byContradiction
      intro hfragment
      rw [FindsLine, not_or] at hfragment
      rw [hevs] at hrun
      rcases runFrom_append.mp hrun with ⟨t', hpre', hrest⟩
      rw [hpre] at hpre'
      cases hpre'
      rcases runFrom_cons_some.mp hrest with ⟨u, hevent, hpost⟩
      rcases event_cases hevent with ⟨bytes, he, _⟩ | ⟨_, hempty, _⟩ |
        ⟨_, c, rest, hunread, _, hreads⟩
      · cases he
      · exact hfragment.left hempty
      · -- the fragment is one of the reads, and has no line end
        have hmem : (firstLine t.unread).take (size - 1) ∈ p.reads := by
          apply (events_grow hpost).right.subset
          rw [hreads]
          simp
        have hnone : ((firstLine t.unread).take (size - 1)).count '\n' = 0 := by
          apply List.count_eq_zero.mpr
          intro hin
          apply hfragment.right
          exact (firstLine_isPrefix _).subset (List.mem_of_mem_take hin)
        have hlt := sum_lt_length (f := List.count '\n')
          (events_reads_count (by rw [hevs] at *; exact hrun)) hmem hnone
        rw [← List.count_flatten, hlength, ← streamOf_count bodies hbodies,
          ← hwritten, ← p.account, hread, List.append_nil] at hlt
        exact absurd hlt (Nat.lt_irrefl _)

end Lines

end Foundation
end Breakin
