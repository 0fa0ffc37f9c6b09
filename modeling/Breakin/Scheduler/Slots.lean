import Breakin.Scheduler.Control

/-!
# Slots, streams and children

The ownership invariant links the three places that know about a child: the table
slot (or helper loop) it was launched for, the pipe that slot reads, and the
kernel's child table.  It makes no assumption on failing calls: a slot may be
marked running for a child it can no longer reach, but never the other way round.
-/

namespace Breakin
namespace Scheduler

open Foundation

/-!
# The kernel's side
-/

structure Older (c c' : Child) : Prop where
  pid : c'.pid = c.pid
  caller : c'.caller = c.caller
  out : c'.out = c.out
  unreaped : c'.Unreaped -> c.Unreaped

theorem Older.refl (c : Child) : Older c c where
  pid := rfl
  caller := rfl
  out := rfl
  unreaped := id

structure Kernel (v : View) : Prop where
  pids : forall q c, v.Has q c -> 0 < c.pid
  distinct : forall q q' c c', v.Has q c -> v.Has q' c' -> c.Unreaped ->
    c'.Unreaped -> c.pid = c'.pid -> q = q'
  outs : forall q c, v.Has q c -> c.out < v.pipes.length

def newChild (v : View) (pid : Nat) (caller : Caller) : Child where
  pid := pid
  caller := caller
  out := v.pipes.length
  life := .alive

theorem has_append {v v' : View} {extra : List (Option Child)}
    (h : v'.children = v.children ++ extra) {q : Nat} {c : Child}
    (hc : v'.Has q c) : v.Has q c ∨
      v.children.length ≤ q ∧ extra[q - v.children.length]? = some (some c) := by
  unfold View.Has at hc ⊢
  rw [h, List.getElem?_append] at hc
  split at hc
  · exact Or.inl hc
  · rename_i hle
    exact Or.inr ⟨Nat.le_of_not_lt hle, hc⟩

theorem has_setLife {v v' : View} {p : Nat} {life : Life}
    (h : v'.children =
      v.children.modify p (Option.map (Child.setLife life)))
    {q : Nat} {c' : Child} (hc : v'.Has q c') :
    exists c, v.Has q c ∧ c' = if p = q then c.setLife life else c := by
  unfold View.Has at hc ⊢
  rw [h, List.getElem?_modify] at hc
  rcases Option.map_eq_some_iff.mp hc with ⟨cell, hcell, heq⟩
  by_cases hq : p = q
  · rw [if_pos hq] at heq
    rcases Option.map_eq_some_iff.mp heq with ⟨c, hc0, hset⟩
    exact ⟨c, by rw [hcell, hc0], by rw [if_pos hq, hset]⟩
  · rw [if_neg hq] at heq
    exact ⟨c', by rw [hcell, heq], by rw [if_neg hq]⟩

theorem RootStep.pipes_grow {v v' : View} {a : Action} (h : RootStep v a v') :
    v.pipes.length ≤ v'.pipes.length := by
  cases h with
  | foreign extra hforeign hnone hlen => exact hlen
  | _ => simp

theorem RootStep.ages {v v' : View} {a : Action} (h : RootStep v a v')
    (hfork : forall t caller out, a ≠ .forkCmd 0 t caller out) :
    forall q c', v'.Has q c' -> exists c, v.Has q c ∧ Older c c' := by
  intro q c' hc
  cases h with
  | foreign extra hforeign hnone hlen =>
      rcases has_append rfl hc with hold | ⟨_, hextra⟩
      · exact ⟨c', hold, Older.refl c'⟩
      · cases hnone _ (List.mem_of_getElem? hextra)
  | exit halive =>
      rename_i p status
      rcases has_setLife rfl hc with ⟨c, hold, heq⟩
      refine ⟨c, hold, ?_⟩
      by_cases hq : p = q
      · rw [if_pos hq] at heq
        subst hq
        rw [heq]
        exact ⟨rfl, rfl, rfl,
          fun _ => Child.unreaped_of_alive (halive c hold)⟩
      · rw [if_neg hq] at heq
        rw [heq]
        exact Older.refl c
  | waitReaped hpc harg hchild hselect hlife hwaited =>
      rename_i t j pc pid c0 st m
      rcases has_setLife rfl hc with ⟨c, hold, heq⟩
      refine ⟨c, hold, ?_⟩
      by_cases hq : j = q
      · rw [if_pos hq] at heq
        rw [heq]
        exact ⟨rfl, rfl, rfl,
          fun hun => absurd hun (Child.not_unreaped_of_reaped rfl)⟩
      · rw [if_neg hq] at heq
        rw [heq]
        exact Older.refl c
  | forked hpc hcaller hchild hpos hfree => exact absurd rfl (hfork _ _ _)
  | _ => exact ⟨c', hc, Older.refl c'⟩

theorem RootStep.children {v v' : View} {a : Action} (h : RootStep v a v') :
    v.pipes.length ≤ v'.pipes.length ∧
    ((exists pid caller, v'.children = v.children ++
        [some (newChild v pid caller)] ∧ 0 < pid ∧
          v'.pipes.length = v.pipes.length + 1 ∧
            forall q c, v.Has q c -> c.Unreaped -> c.pid ≠ pid) ∨
      (forall q c', v'.Has q c' -> exists c, v.Has q c ∧ Older c c')) := by
  refine ⟨h.pipes_grow, ?_⟩
  by_cases hfork : exists t caller out, a = .forkCmd 0 t caller out
  · rcases hfork with ⟨t, caller, out, heq⟩
    subst heq
    cases h with
    | foreign extra hforeign hnone hlen => exact absurd rfl hforeign
    | forkFailed hpc hcaller hchild =>
        exact Or.inr fun q c hc => ⟨c, hc, Older.refl c⟩
    | forked hpc hcaller hchild hpos hfree =>
        exact Or.inl ⟨_, _, rfl, hpos, by simp, hfree⟩
  · right
    apply h.ages
    intro t caller out heq
    exact hfork ⟨t, caller, out, heq⟩

theorem has_newChild {v v' : View} {pid : Nat} {caller : Caller}
    (h : v'.children = v.children ++ [some (newChild v pid caller)])
    {q : Nat} {c : Child} (hc : v'.Has q c) : v.Has q c ∨
      q = v.children.length ∧ c = newChild v pid caller := by
  rcases has_append h hc with hold | ⟨hle, hnew⟩
  · exact Or.inl hold
  · rw [List.getElem?_singleton] at hnew
    split at hnew
    · rename_i hzero
      right
      exact ⟨by omega, (Option.some.inj (Option.some.inj hnew)).symm⟩
    · cases hnew

theorem RootStep.kernel {v v' : View} {a : Action} (h : RootStep v a v')
    (hk : Kernel v) : Kernel v' := by
  rcases h.children with ⟨hlen, hnew | hold⟩
  · rcases hnew with ⟨pid, caller, hchildren, hpos, hpipes, hfree⟩
    constructor
    · intro q c hc
      rcases has_newChild hchildren hc with hold | ⟨_, hnew⟩
      · exact hk.pids q c hold
      · rw [hnew]
        exact hpos
    · intro q q' c c' hc hc' hun hun' hpid
      rcases has_newChild hchildren hc with hold | ⟨hq, hnew⟩
      · rcases has_newChild hchildren hc' with hold' | ⟨hq', hnew'⟩
        · exact hk.distinct q q' c c' hold hold' hun hun' hpid
        · rw [hnew'] at hpid
          exact absurd hpid (hfree q c hold hun)
      · rcases has_newChild hchildren hc' with hold' | ⟨hq', hnew'⟩
        · rw [hnew] at hpid
          exact absurd hpid.symm (hfree q' c' hold' hun')
        · rw [hq, hq']
    · intro q c hc
      rcases has_newChild hchildren hc with hold | ⟨_, hnew⟩
      · exact Nat.lt_of_lt_of_le (hk.outs q c hold) hlen
      · rw [hnew, hpipes]
        exact Nat.lt_succ_self _
  · constructor
    · intro q c hc
      rcases hold q c hc with ⟨c0, hc0, holder⟩
      rw [holder.pid]
      exact hk.pids q c0 hc0
    · intro q q' c c' hc hc' hun hun' hpid
      rcases hold q c hc with ⟨c0, hc0, holder⟩
      rcases hold q' c' hc' with ⟨c1, hc1, holder'⟩
      rw [holder.pid, holder'.pid] at hpid
      exact hk.distinct q q' c0 c1 hc0 hc1 (holder.unreaped hun)
        (holder'.unreaped hun') hpid
    · intro q c hc
      rcases hold q c hc with ⟨c0, hc0, holder⟩
      rw [holder.out]
      exact Nat.lt_of_lt_of_le (hk.outs q c0 hc0) hlen

/-- A child with the pid of an unreaped child is that child. -/
theorem Child.selectedBy_own {v : View} (hk : Kernel v) {q j : Nat}
    {own c : Child} (hown : v.Has q own) (hun : own.Unreaped) {pid : Int}
    (hpid : (own.pid : Int) = pid) (hc : v.Has j c) (hsel : c.SelectedBy pid) :
    j = q := by
  have hpos := hk.pids q own hown
  apply hk.distinct j q c own hc hown hsel.left hun
  rcases hsel.right with hneg | hzero | hsame
  · omega
  · omega
  · omega

/-!
# The table's side
-/

theorem classify_exited (script : BurninScript) (code : UInt8) :
    classify script (.status (.exited code)) =
      if code = 255 then
        { script with
          running := -1
          lastResult := 0
          passCount := script.passCount + 1 }
      else if code = 0 then
        { script with
          running := 0
          lastResult := 0
          passCount := script.passCount + 1 }
      else
        { script with
          running := 0
          lastResult := 1
          failCount := script.failCount + 1 } := rfl

@[simp] theorem classify_fpStdout (script : BurninScript) (res : WaitOutcome) :
    (classify script res).fpStdout = script.fpStdout := by
  cases res with
  | error => rfl
  | nochange => rfl
  | status st =>
      cases st with
      | signaled sig => rfl
      | exited code =>
          rw [classify_exited]
          split
          · rfl
          · split <;> rfl

@[simp] theorem classify_pid (script : BurninScript) (res : WaitOutcome) :
    (classify script res).pid = script.pid := by
  cases res with
  | error => rfl
  | nochange => rfl
  | status st =>
      cases st with
      | signaled sig => rfl
      | exited code =>
          rw [classify_exited]
          split
          · rfl
          · split <;> rfl

theorem Move.slot {scripts scripts' : List BurninScript} {pc pc' : PC}
    (h : Move scripts none pc scripts' pc') {i : Nat} {script : BurninScript}
    (hscript : scripts[i]? = some script) :
    exists script', scripts'[i]? = some script' ∧
      script'.fpStdout = script.fpStdout ∧ script'.pid = script.pid ∧
        (script'.running = script.running ∨ pc = .reap i) := by
  cases h with
  | delivered data hold =>
      rename_i k old
      refine ⟨if k = i then deliver script data else script,
        by simp [List.getElem?_modify, hscript], ?_⟩
      split <;> exact ⟨rfl, rfl, Or.inl rfl⟩
  | classified res hold =>
      rename_i k old
      refine ⟨if k = i then classify script res else script,
        by simp [List.getElem?_modify, hscript], ?_⟩
      by_cases hk : k = i
      · rw [if_pos hk, hk]
        exact ⟨classify_fpStdout script res, classify_pid script res,
          Or.inr rfl⟩
      · rw [if_neg hk]
        exact ⟨rfl, rfl, Or.inl rfl⟩
  | _ => exact ⟨script, hscript, rfl, rfl, Or.inl rfl⟩

theorem Move.slot_back {scripts scripts' : List BurninScript} {pc pc' : PC}
    (h : Move scripts none pc scripts' pc') {i : Nat} {script' : BurninScript}
    (hscript : scripts'[i]? = some script') :
    exists script, scripts[i]? = some script ∧
      script'.fpStdout = script.fpStdout ∧ script'.pid = script.pid ∧
        (script'.running = script.running ∨ pc = .reap i) := by
  have hlen : scripts'.length = scripts.length := by
    cases h <;> simp
  have hlt : i < scripts.length := by
    rw [← hlen]
    exact (List.getElem?_eq_some_iff.mp hscript).choose
  rcases h.slot (List.getElem?_eq_getElem hlt) with ⟨s, hs, hfp, hpid, hrun⟩
  rw [hscript] at hs
  cases hs
  exact ⟨_, List.getElem?_eq_getElem hlt, hfp, hpid, hrun⟩

def Following (m : Memory) (x : Helper) (pid : Int) (fp : Nat) : Prop :=
  exists (t : Nat) (pc : HelperPC), m.threads[t]? = some (.helper x pc) ∧
    pc.Follows pid fp

structure Slots (v : View) : Prop where
  owned : forall q c i, v.Has q c -> c.Unreaped -> c.caller = .burnin i ->
    exists script, v.mem.scripts[i]? = some script ∧ script.running = 1 ∧
      (script.fpStdout = none ∨ script.fpStdout = some c.out)
  stream : forall (i : Nat) script fp, v.mem.scripts[i]? = some script ->
    script.fpStdout = some fp ->
      fp < v.pipes.length ∧
        forall q c, v.Has q c -> c.out = fp ->
          c.caller = .burnin i ∧ (c.pid : Int) = script.pid
  helper : forall x pid fp, Following v.mem x pid fp ->
    fp < v.pipes.length ∧
      forall q c, v.Has q c -> c.out = fp ->
        c.caller = .helper x ∧ (c.pid : Int) = pid
  single : forall q q' c c' i, v.Has q c -> v.Has q' c' -> c.Unreaped ->
    c'.Unreaped -> c.caller = .burnin i -> c'.caller = .burnin i -> q = q'

/-- A slot with a stream selects its own unreaped child when it waits. -/
theorem Slots.selects {v : View} (hs : Slots v) {i q fp : Nat}
    {script : BurninScript} {c : Child}
    (hscript : v.mem.scripts[i]? = some script)
    (hfp : script.fpStdout = some fp) (hc : v.Has q c) (hun : c.Unreaped)
    (hcaller : c.caller = .burnin i) :
    fp = c.out ∧ (c.pid : Int) = script.pid ∧ c.SelectedBy script.pid := by
  rcases hs.owned q c i hc hun hcaller with ⟨s, hslot, _hrun, hstream⟩
  rw [hscript] at hslot
  cases hslot
  rcases hstream with hnone | hsome
  · rw [hfp] at hnone
    cases hnone
  · rw [hfp] at hsome
    have hout : fp = c.out := Option.some.inj hsome
    have hpid := ((hs.stream i script fp hscript hfp).right q c hc
      hout.symm).right
    exact ⟨hout, hpid, hun, Or.inr (Or.inr hpid)⟩

/-- A step that forks nothing keeps the ownership invariant, when the slots in
`L` that it stops have no unreaped child left. -/
theorem slots_of_aging {v v' : View} {L : Nat -> Prop} (hs : Slots v)
    (hlen : v.pipes.length ≤ v'.pipes.length)
    (hold : forall q c', v'.Has q c' -> exists c, v.Has q c ∧ Older c c')
    (hslot : forall {i : Nat} {script : BurninScript},
      v.mem.scripts[i]? = some script ->
      exists script', v'.mem.scripts[i]? = some script' ∧
        script'.fpStdout = script.fpStdout ∧ script'.pid = script.pid ∧
          (script'.running = script.running ∨ L i))
    (hback : forall {i : Nat} {script' : BurninScript},
      v'.mem.scripts[i]? = some script' ->
      exists script, v.mem.scripts[i]? = some script ∧
        script'.fpStdout = script.fpStdout ∧ script'.pid = script.pid)
    (hfollow : forall x pid fp, Following v'.mem x pid fp ->
      Following v.mem x pid fp)
    (hlost : forall i q c', L i -> v'.Has q c' -> c'.Unreaped ->
      c'.caller ≠ .burnin i) : Slots v' where
  owned := by
    intro q c' i hc hun hcaller
    rcases hold q c' hc with ⟨c, hc0, holder⟩
    rcases hs.owned q c i hc0 (holder.unreaped hun)
      (holder.caller ▸ hcaller) with ⟨script, hscript, hrun, hfp⟩
    rcases hslot hscript with ⟨script', hscript', hfp', _hpid, hrun'⟩
    refine ⟨script', hscript', ?_, ?_⟩
    · rcases hrun' with hsame | hgone
      · rw [hsame, hrun]
      · exact absurd hcaller (hlost i q c' hgone hc hun)
    · rw [hfp', holder.out]
      exact hfp
  stream := by
    intro i script' fp hscript' hfp
    rcases hback hscript' with ⟨script, hscript, hfp', hpid⟩
    rw [hfp'] at hfp
    rcases hs.stream i script fp hscript hfp with ⟨hlt, hchild⟩
    refine ⟨Nat.lt_of_lt_of_le hlt hlen, ?_⟩
    intro q c' hc hout
    rcases hold q c' hc with ⟨c, hc0, holder⟩
    rw [holder.caller, holder.pid, hpid]
    exact hchild q c hc0 (holder.out ▸ hout)
  helper := by
    intro x pid fp hfol
    rcases hs.helper x pid fp (hfollow x pid fp hfol) with ⟨hlt, hchild⟩
    refine ⟨Nat.lt_of_lt_of_le hlt hlen, ?_⟩
    intro q c' hc hout
    rcases hold q c' hc with ⟨c, hc0, holder⟩
    rw [holder.caller, holder.pid]
    exact hchild q c hc0 (holder.out ▸ hout)
  single := by
    intro q q' c1 c2 i hc1 hc2 hun1 hun2 hcaller1 hcaller2
    rcases hold q c1 hc1 with ⟨c3, hc3, holder3⟩
    rcases hold q' c2 hc2 with ⟨c4, hc4, holder4⟩
    exact hs.single q q' c3 c4 i hc3 hc4 (holder3.unreaped hun1)
      (holder4.unreaped hun2) (holder3.caller ▸ hcaller1)
      (holder4.caller ▸ hcaller2)

theorem slots_of_same {v v' : View} (hs : Slots v)
    (hlen : v.pipes.length ≤ v'.pipes.length)
    (hold : forall q c', v'.Has q c' -> exists c, v.Has q c ∧ Older c c')
    (hscripts : v'.mem.scripts = v.mem.scripts)
    (hfollow : forall x pid fp, Following v'.mem x pid fp ->
      Following v.mem x pid fp) : Slots v' := by
  apply slots_of_aging (L := fun _ => False) hs hlen hold
  · intro i script hscript
    exact ⟨script, by rw [hscripts]; exact hscript, rfl, rfl, Or.inl rfl⟩
  · intro i script hscript
    exact ⟨script, by rw [← hscripts]; exact hscript, rfl, rfl⟩
  · exact hfollow
  · intro i q c' hlost
    cases hlost

theorem following_set {m m' : Memory} {t : Nat} {pc pc' : PC}
    (hpc : m.threads[t]? = some pc)
    (hthreads : m'.threads = m.threads.set t pc')
    {x : Helper} {pid : Int} {fp : Nat} (hfollow : Following m' x pid fp) :
    Following m x pid fp ∨
      exists h, pc' = .helper x h ∧ h.Follows pid fp := by
  rcases hfollow with ⟨q, hq, hthread, hpcq⟩
  rw [hthreads, List.getElem?_set] at hthread
  by_cases ht : t = q
  · have hlt : t < m.threads.length := (List.getElem?_eq_some_iff.mp hpc).choose
    simp only [if_pos ht, if_pos hlt, Option.some.injEq] at hthread
    exact Or.inr ⟨hq, hthread, hpcq⟩
  · rw [if_neg ht] at hthread
    exact Or.inl ⟨q, hq, hthread, hpcq⟩

theorem following_append {m m' : Memory} {y : Helper}
    (hthreads : m'.threads = m.threads ++ [.helper y .fork]) {x : Helper}
    {pid : Int} {fp : Nat} (hfollow : Following m' x pid fp) :
    Following m x pid fp := by
  rcases hfollow with ⟨t, pc, hthread, hpc⟩
  rw [hthreads, List.getElem?_append] at hthread
  split at hthread
  · exact ⟨t, pc, hthread, hpc⟩
  · rw [List.getElem?_singleton] at hthread
    split at hthread
    · cases hthread
      rcases hpc with heq | heq <;> cases heq
    · cases hthread

theorem following_of_move {m m' : Memory} {t : Nat} {pc pc' : PC}
    (hpc : m.threads[t]? = some pc)
    (hthreads : m'.threads = m.threads.set t pc')
    (hmove : Move m.scripts none pc m'.scripts pc')
    {x : Helper} {pid : Int} {fp : Nat} (hfollow : Following m' x pid fp) :
    Following m x pid fp := by
  rcases following_set hpc hthreads hfollow with hold | ⟨h, heq, hpcq⟩
  · exact hold
  · rw [heq] at hmove
    generalize m'.scripts = scripts' at hmove
    cases hmove with
    | helper hback =>
        rename_i old
        exact ⟨t, old, hpc, hback pid fp hpcq⟩

theorem slots_of_move {v v' : View} {t : Nat} {pc pc' : PC} (hs : Slots v)
    (hlen : v.pipes.length ≤ v'.pipes.length)
    (hold : forall q c', v'.Has q c' -> exists c, v.Has q c ∧ Older c c')
    (hpc : v.mem.threads[t]? = some pc)
    (hthreads : v'.mem.threads = v.mem.threads.set t pc')
    (hmove : Move v.mem.scripts none pc v'.mem.scripts pc')
    (hlost : forall i q c', pc = .reap i -> v'.Has q c' -> c'.Unreaped ->
      c'.caller ≠ .burnin i) : Slots v' := by
  apply slots_of_aging (L := fun i => pc = .reap i) hs hlen hold
  · intro i script hscript
    exact hmove.slot hscript
  · intro i script' hscript'
    rcases hmove.slot_back hscript' with ⟨script, hscript, hfp, hpid, _⟩
    exact ⟨script, hscript, hfp, hpid⟩
  · intro x pid fp
    exact following_of_move hpc hthreads hmove
  · exact hlost

/-!
# The step of fork_cmd
-/

/-- A call of `fork_cmd` opens one pipe, and adds a child exactly when `fork`
gave its process id. -/
structure ForkStep (v v' : View) (pid : Int) (caller : Caller) : Prop where
  grow : v'.pipes.length = v.pipes.length + 1
  children : forall q c, v'.Has q c -> v.Has q c ∨
    q = v.children.length ∧ exists n : Nat, pid = n ∧ c = newChild v n caller

namespace ForkStep

variable {v v' : View} {pid : Int} {caller : Caller}

theorem fresh (h : ForkStep v v' pid caller) (hk : Kernel v) {q : Nat}
    {c : Child} (hc : v'.Has q c) (hout : c.out = v.pipes.length) :
    c.caller = caller ∧ (c.pid : Int) = pid := by
  rcases h.children q c hc with hold | ⟨_, n, hn, hnew⟩
  · have hlt := hk.outs q c hold
    omega
  · rw [hnew]
    exact ⟨rfl, hn.symm⟩

theorem old (h : ForkStep v v' pid caller) {q : Nat} {c : Child}
    (hc : v'.Has q c) (hout : c.out < v.pipes.length) : v.Has q c := by
  rcases h.children q c hc with hold | ⟨_, n, _, hnew⟩
  · exact hold
  · rw [hnew] at hout
    exact absurd hout (Nat.lt_irrefl _)

theorem keeps (h : ForkStep v v' pid caller) {fp : Nat}
    {P : Child -> Prop}
    (hold : fp < v.pipes.length ∧ forall q c, v.Has q c -> c.out = fp -> P c) :
    fp < v'.pipes.length ∧ forall q c, v'.Has q c -> c.out = fp -> P c := by
  rcases hold with ⟨hlt, hchild⟩
  refine ⟨by rw [h.grow]; exact Nat.lt_succ_of_lt hlt, ?_⟩
  intro q c hc hout
  exact hchild q c (h.old hc (hout ▸ hlt)) hout

theorem opened (h : ForkStep v v' pid caller) (hk : Kernel v) :
    v.pipes.length < v'.pipes.length ∧
      forall q c, v'.Has q c -> c.out = v.pipes.length ->
        c.caller = caller ∧ (c.pid : Int) = pid := by
  refine ⟨by rw [h.grow]; exact Nat.lt_succ_self _, ?_⟩
  intro q c hc hout
  exact h.fresh hk hc hout

theorem single (h : ForkStep v v' pid caller) (hs : Slots v)
    (hidle : forall i, caller = .burnin i ->
      exists script, v.mem.scripts[i]? = some script ∧ script.running = 0)
    {q q' : Nat} {c c' : Child} {i : Nat} (hc : v'.Has q c)
    (hc' : v'.Has q' c') (hun : c.Unreaped) (hun' : c'.Unreaped)
    (hcaller : c.caller = .burnin i) (hcaller' : c'.caller = .burnin i) :
    q = q' := by
  have hnone : forall q0 c0, v.Has q0 c0 -> c0.Unreaped ->
      c0.caller = .burnin i -> caller ≠ .burnin i := by
    intro q0 c0 hc0 hun0 hcaller0 hnew
    rcases hidle i hnew with ⟨script, hscript, hrun⟩
    rcases hs.owned q0 c0 i hc0 hun0 hcaller0 with ⟨s, hslot, hone, _⟩
    rw [hscript] at hslot
    cases hslot
    omega
  rcases h.children q c hc with hold | ⟨hq, n, _, hnew⟩
  · rcases h.children q' c' hc' with hold' | ⟨hq', n', _, hnew'⟩
    · exact hs.single q q' c c' i hold hold' hun hun' hcaller hcaller'
    · rw [hnew'] at hcaller'
      exact absurd hcaller' (hnone q c hold hun hcaller)
  · rcases h.children q' c' hc' with hold' | ⟨hq', n', _, hnew'⟩
    · rw [hnew] at hcaller
      exact absurd hcaller (hnone q' c' hold' hun' hcaller')
    · rw [hq, hq']

theorem slots_of_helper {x : Helper}
    (h : ForkStep v v' pid (.helper x)) (hs : Slots v) (hk : Kernel v)
    (hscripts : v'.mem.scripts = v.mem.scripts)
    (hfollow : forall y p fp, Following v'.mem y p fp ->
      Following v.mem y p fp ∨ y = x ∧ p = pid ∧ fp = v.pipes.length) :
    Slots v' where
  owned := by
    intro q c i hc hun hcaller
    rw [hscripts]
    rcases h.children q c hc with hold | ⟨_, n, _, hnew⟩
    · exact hs.owned q c i hold hun hcaller
    · rw [hnew] at hcaller
      cases hcaller
  stream := by
    intro i script fp hscript hfp
    rw [hscripts] at hscript
    exact h.keeps (hs.stream i script fp hscript hfp)
  helper := by
    intro y p fp hfol
    rcases hfollow y p fp hfol with hold | ⟨hy, hp, hfp⟩
    · exact h.keeps (hs.helper y p fp hold)
    · rw [hy, hp, hfp]
      exact h.opened hk
  single := by
    intro q q' c c' i hc hc' hun hun' hcaller hcaller'
    apply h.single hs _ hc hc' hun hun' hcaller hcaller'
    intro j hj
    cases hj

/-- The call of `fork_cmd` for slot `i` marks it running, and records stream and
process id together or not at all. -/
theorem slots_of_burnin {i : Nat} {script : BurninScript} {ret : ForkReturn}
    (h : ForkStep v v' pid (.burnin i)) (hs : Slots v) (hk : Kernel v)
    (hscript : v.mem.scripts[i]? = some script) (hidle : script.running = 0)
    (hret : forall k, ret.fp = some k ->
      k = v.pipes.length ∧ ret.stored = some pid)
    (hscripts : v'.mem.scripts = v.mem.scripts.modify i (launchedSlot ret))
    (hfollow : forall y p fp, Following v'.mem y p fp ->
      Following v.mem y p fp) : Slots v' where
  owned := by
    intro q c j hc hun hcaller
    rw [hscripts, List.getElem?_modify]
    rcases h.children q c hc with hold | ⟨_, n, _, hnew⟩
    · rcases hs.owned q c j hold hun hcaller with ⟨s, hs0, hrun, hfp⟩
      have hij : i ≠ j := by
        intro heq
        rw [← heq, hscript] at hs0
        cases hs0
        omega
      exact ⟨s, by simp [hs0, hij], hrun, hfp⟩
    · rw [hnew] at hcaller ⊢
      cases hcaller
      refine ⟨launchedSlot ret script, by simp [hscript], rfl, ?_⟩
      change ret.fp = none ∨ ret.fp = some v.pipes.length
      cases hfp : ret.fp with
      | none => exact Or.inl rfl
      | some k => exact Or.inr (by rw [(hret k hfp).left])
  stream := by
    intro j s fp hs0 hfp
    rw [hscripts] at hs0
    rcases modify_cases hs0 with ⟨old, hold, heq⟩
    by_cases hij : i = j
    · rw [if_pos hij] at heq
      rw [heq] at hfp ⊢
      rcases hret fp hfp with ⟨hpipe, hstored⟩
      have hpid : (launchedSlot ret old).pid = pid := by
        simp [launchedSlot, hstored]
      rw [hpipe, hpid, ← hij]
      exact h.opened hk
    · rw [if_neg hij] at heq
      rw [heq] at hfp ⊢
      exact h.keeps (hs.stream j old fp hold hfp)
  helper := by
    intro y p fp hfol
    exact h.keeps (hs.helper y p fp (hfollow y p fp hfol))
  single := by
    intro q q' c c' j hc hc' hun hun' hcaller hcaller'
    apply h.single hs _ hc hc' hun hun' hcaller hcaller'
    intro k hk
    cases hk
    exact ⟨script, hscript, hidle⟩

theorem slots {t : Nat} {pc pc' : PC}
    (h : ForkStep v v' pid caller) (hs : Slots v) (hk : Kernel v)
    (hpc : v.mem.threads[t]? = some pc)
    (hthreads : v'.mem.threads = v.mem.threads.set t pc')
    (hmove : Move v.mem.scripts (some (caller, v.pipes.length, pid)) pc
      v'.mem.scripts pc') : Slots v' := by
  have hset : forall y p fp, Following v'.mem y p fp ->
      Following v.mem y p fp ∨
        exists g, pc' = .helper y g ∧ g.Follows p fp := by
    intro y p fp hfol
    exact following_set hpc hthreads hfol
  generalize hscripts : v'.mem.scripts = scripts' at hmove
  cases hmove with
  | launched ret hscript hidle hret =>
      apply h.slots_of_burnin hs hk hscript hidle hret hscripts
      intro y p fp hfol
      rcases hset y p fp hfol with hold | ⟨g, hg, _⟩
      · exact hold
      · cases hg
  | follow =>
      apply h.slots_of_helper hs hk hscripts
      intro y p fp hfol
      rcases hset y p fp hfol with hold | ⟨g, hg, hfollows⟩
      · exact Or.inl hold
      · cases hg
        rcases hfollows with heq | heq <;> cases heq
        exact Or.inr ⟨rfl, rfl, rfl⟩
  | unfollowed hplace =>
      apply h.slots_of_helper hs hk hscripts
      intro y p fp hfol
      rcases hset y p fp hfol with hold | ⟨g, hg, hfollows⟩
      · exact Or.inl hold
      · rcases hplace with hdone | ⟨_, hlaunch⟩
        · rw [hdone] at hg
          cases hg
          rcases hfollows with heq | heq <;> cases heq
        · rw [hlaunch] at hg
          cases hg

end ForkStep

theorem slots_start (tests : List CString) : Slots (startView tests) where
  owned := by
    intro q c i hc
    cases q with
    | zero => cases hc
    | succ q => cases hc
  stream := by
    intro i script fp hscript hfp
    simp only [startView, List.getElem?_map, Option.map_eq_some_iff] at hscript
    rcases hscript with ⟨name, _hname, heq⟩
    rw [← heq] at hfp
    cases hfp
  helper := by
    intro x pid fp hfollow
    rcases hfollow with ⟨t, pc, hthread, hpc⟩
    cases t with
    | zero =>
        cases hthread
        rcases hpc with heq | heq <;> cases heq
    | succ t => cases hthread
  single := by
    intro q q' c c' i hc
    cases q with
    | zero => cases hc
    | succ q => cases hc

theorem kernel_start (tests : List CString) : Kernel (startView tests) where
  pids := by
    intro q c hc
    cases q with
    | zero => cases hc
    | succ q => cases hc
  distinct := by
    intro q q' c c' hc
    cases q with
    | zero => cases hc
    | succ q => cases hc
  outs := by
    intro q c hc
    cases q with
    | zero => cases hc
    | succ q => cases hc

/-!
# Every step keeps the ownership invariant
-/

theorem waited_nochange_scripts {m m' : Memory} {t : Nat} {pc : PC}
    (h : waited m t .nochange pc = some m') : m'.scripts = m.scripts := by
  unfold waited at h
  split at h
  · split at h
    · split at h
      · cases h
        rw [pollWaited_scripts]
        apply List.ext_getElem?
        intro j
        simp [List.getElem?_modify, classify]
      · cases h
    · cases h
  · cases h
    rfl
  · cases h

/-- When the main thread reaps slot `i`, the slot has a stream and `waitpid` gets
the process id it recorded. -/
theorem Control.reaping {m : Memory} (h : Control m) {t i : Nat} {pid : Int}
    (hpc : m.threads[t]? = some (.reap i))
    (harg : waitArg m (.reap i) = some pid) :
    exists script fp, m.scripts[i]? = some script ∧ script.running = 1 ∧
      script.fpStdout = some fp ∧ script.pid = pid := by
  have ht : t = 0 := h.threads.main_of_not_dump hpc id
  subst ht
  rcases h.visiting i (Or.inr hpc) with ⟨script, fp, hscript, hrun, hfp⟩
  simp only [waitArg, hscript, Option.some.injEq] at harg
  exact ⟨script, fp, hscript, hrun, hfp, harg⟩

theorem RootStep.slots {v v' : View} {a : Action} (h : RootStep v a v')
    (hcontrol : Control v.mem) (hk : Kernel v) (hs : Slots v) : Slots v' := by
  have hgrow := h.pipes_grow
  have hages := h.ages
  by_cases hcalls : Calls a
  · cases h with
    | foreign extra hf => exact absurd hf hcalls.not_foreign
    | forkFailed hpc hcaller hchild =>
        rename_i t pc caller out
        rcases forkReturned_move hcaller t v.pipes.length (-1) out with
          ⟨pc', hthreads, hmove⟩
        refine ForkStep.slots ⟨by simp, ?_⟩ hs hk hpc hthreads hmove
        intro q c hc
        exact Or.inl hc
    | forked hpc hcaller hchild hpos hfree =>
        rename_i t pid pc caller out
        rcases forkReturned_move hcaller t v.pipes.length pid out with
          ⟨pc', hthreads, hmove⟩
        refine ForkStep.slots ⟨by simp, ?_⟩ hs hk hpc hthreads hmove
        intro q c hc
        rcases has_newChild rfl hc with hold | ⟨hq, hnew⟩
        · exact Or.inl hold
        · exact Or.inr ⟨hq, pid, rfl, hnew⟩
    | waitError hpc harg hnone hwaited =>
        rcases waited_move hwaited with ⟨pc', hthreads, hmove⟩
        apply slots_of_move hs hgrow (hages (by simp)) hpc hthreads hmove
        intro i q c hreap hc hun hcaller
        rw [hreap] at hpc harg
        rcases hcontrol.reaping hpc harg with
          ⟨script, fp, hscript, _, hfp, hpid⟩
        rw [← hpid] at hnone
        exact hnone q c hc (hs.selects hscript hfp hc hun hcaller).right.right
    | waitNochange hpc harg hsome hnone hwaited =>
        have hscripts := waited_nochange_scripts hwaited
        rcases waited_move hwaited with ⟨pc', hthreads, hmove⟩
        exact slots_of_same hs hgrow (hages (by simp)) hscripts
          fun x pid fp hfol => following_of_move hpc hthreads hmove hfol
    | waitReaped hpc harg hchild hselect hlife hwaited =>
        rename_i t j pc pid c0 st m
        rcases waited_move hwaited with ⟨pc', hthreads, hmove⟩
        apply slots_of_move hs hgrow (hages (by simp)) hpc hthreads hmove
        intro i q c' hreap hc hun hcaller
        rw [hreap] at hpc harg
        rcases hcontrol.reaping hpc harg with
          ⟨script, fp, hscript, _, hfp, hpid⟩
        rcases has_setLife rfl hc with ⟨c, hc0, heq⟩
        by_cases hq : j = q
        · rw [if_pos hq] at heq
          rw [heq] at hun
          exact Child.not_unreaped_of_reaped rfl hun
        · rw [if_neg hq] at heq
          rw [heq] at hun hcaller
          -- the reaped child has the pid of the slot's own, so it is the same
          have hown := (hs.selects hscript hfp hc0 hun hcaller).right.left
          rw [← hpid] at hselect
          exact hq (Child.selectedBy_own hk hc0 hun hown hchild hselect)
    | _ => exact hcalls.elim
  · have hold := hages fun t caller out heq => hcalls (heq ▸ rfl)
    cases h.quiet hcalls with
    | idle hmem =>
        refine slots_of_same hs hgrow hold (by rw [hmem]) ?_
        intro x pid fp hfol
        rw [hmem] at hfol
        exact hfol
    | dumpLog ha hscripts hset hfds =>
        exact slots_of_same hs hgrow hold hscripts
          fun x pid fp hfol => following_append hset hfol
    | move hforeign hpc hset hmove hfds hreap =>
        exact slots_of_move hs hgrow hold hpc hset hmove
          fun i _ _ heq => absurd heq (hreap i)

/-- The invariants that hold in every run, whatever fails. -/
structure Owned (v : View) : Prop where
  kernel : Kernel v
  slots : Slots v

theorem owned_start (tests : List CString) : Owned (startView tests) where
  kernel := kernel_start tests
  slots := slots_start tests

theorem RootStep.keeps_owned {v v' : View} {a : Action} (h : RootStep v a v')
    (hcontrol : Control v.mem) (howned : Owned v) : Owned v' where
  kernel := h.kernel howned.kernel
  slots := h.slots hcontrol howned.kernel howned.slots

end Scheduler
end Breakin
