import Breakin.Foundation.Runs

/-!
# Publishing a file by renaming it

A writer fills a file under a temporary name and renames it; readers open the file
under its own name and read it piece by piece, while the writer goes on.  What has
been renamed is never written again, so that a reader sees one version of the
file and nothing of the others.
-/

namespace Breakin
namespace Foundation

structure OpenFile where
  inode : Nat
  version : Nat
  got : List Char
deriving DecidableEq

/-- The contents by inode, and what the two names stand for.  `versions` is history:
what has been renamed so far; a reader stays in `readers` when it is done. -/
structure Publication where
  inodes : List (List Char)
  temp : Option Nat
  final : Option Nat
  versions : List (List Char)
  readers : List OpenFile
deriving DecidableEq

/-- `create` opens the temporary name for writing and empties what is there; `read`
gives reader `r` the next characters, `n` at most. -/
inductive PublishEvent where
  | create
  | write (bytes : List Char)
  | rename (ok : Bool)
  | openFinal
  | read (r n : Nat)
deriving DecidableEq

namespace Publication

def initial : Publication where
  inodes := []
  temp := none
  final := none
  versions := []
  readers := []

def content (p : Publication) (i : Nat) : List Char :=
  (p.inodes[i]?).getD []

def create (p : Publication) : Publication :=
  match p.temp with
  | some i => { p with inodes := p.inodes.set i [] }
  | none => { p with inodes := p.inodes ++ [[]], temp := some p.inodes.length }

def write (p : Publication) (bytes : List Char) : Option Publication :=
  match p.temp with
  | some i => some { p with inodes := p.inodes.set i (p.content i ++ bytes) }
  | none => none

def rename (p : Publication) (ok : Bool) : Option Publication :=
  match p.temp with
  | some i =>
      if ok then
        some
          { p with
            temp := none
            final := some i
            versions := p.versions ++ [p.content i] }
      else
        some p
  | none => none

def openFinal (p : Publication) : Option Publication :=
  match p.final with
  | some i =>
      some { p with
        readers := p.readers ++ [⟨i, p.versions.length - 1, []⟩] }
  | none => none

def next (p : Publication) (r : OpenFile) (n : Nat) : List Char :=
  ((p.content r.inode).drop r.got.length).take n

def read (p : Publication) (r n : Nat) : Option Publication :=
  match p.readers[r]? with
  | some reader =>
      some { p with
        readers := p.readers.set r { reader with got := reader.got ++ p.next reader n } }
  | none => none

def step (p : Publication) : PublishEvent -> Option Publication
  | .create => some p.create
  | .write bytes => p.write bytes
  | .rename ok => p.rename ok
  | .openFinal => p.openFinal
  | .read r n => p.read r n

/-!
# The invariant
-/

structure Sound (p : Publication) : Prop where
  temp : forall i, p.temp = some i -> i < p.inodes.length ∧ p.final ≠ some i
  final : forall i, p.final = some i ->
    exists v, p.inodes[i]? = some v ∧ p.versions.getLast? = some v
  unpublished : p.final = none -> p.versions = []
  readers : forall r, r ∈ p.readers -> p.temp ≠ some r.inode ∧
    exists v, p.inodes[r.inode]? = some v ∧ p.versions[r.version]? = some v ∧
      r.got <+: v

theorem sound_initial : initial.Sound where
  temp := fun _ h => nomatch h
  final := fun _ h => nomatch h
  unpublished := fun _ => rfl
  readers := fun _ h => nomatch h

theorem Sound.set_temp {p : Publication} (h : p.Sound) {i : Nat}
    (hi : p.temp = some i) (text : List Char) :
    Sound { p with inodes := p.inodes.set i text } where
  temp := by
    intro j hj
    rw [List.length_set]
    exact h.temp j hj
  final := by
    intro j hj
    have hne : i ≠ j := fun heq => (h.temp i hi).right (heq ▸ hj)
    rcases h.final j hj with ⟨v, hinode, hlast⟩
    refine ⟨v, ?_, hlast⟩
    show (p.inodes.set i text)[j]? = some v
    rw [List.getElem?_set_ne hne]
    exact hinode
  unpublished := h.unpublished
  readers := by
    intro r hr
    rcases h.readers r hr with ⟨hapart, v, hinode, hrest⟩
    have hne : i ≠ r.inode := fun heq => hapart (heq ▸ hi)
    refine ⟨hapart, v, ?_, hrest⟩
    show (p.inodes.set i text)[r.inode]? = some v
    rw [List.getElem?_set_ne hne]
    exact hinode

theorem getElem?_append_some {l more : List α} {i : Nat} {a : α}
    (h : l[i]? = some a) : (l ++ more)[i]? = some a := by
  rw [List.getElem?_append_left (List.getElem?_eq_some_iff.mp h).choose]
  exact h

theorem Sound.create {p : Publication} (h : p.Sound) : p.create.Sound := by
  unfold Publication.create
  split
  · rename_i i hi
    exact h.set_temp hi []
  · rename_i htemp
    -- the new inode is behind all that are in use
    have hnew : forall {i : Nat} {v : List Char}, p.inodes[i]? = some v ->
        i ≠ p.inodes.length :=
      fun hi => Nat.ne_of_lt (List.getElem?_eq_some_iff.mp hi).choose
    constructor
    case temp =>
      intro i hi
      cases hi
      constructor
      · rw [List.length_append]
        exact Nat.lt_succ_self _
      · intro hfinal
        rcases h.final _ hfinal with ⟨v, hinode, _⟩
        exact hnew hinode rfl
    case final =>
      intro i hi
      rcases h.final i hi with ⟨v, hinode, hlast⟩
      exact ⟨v, getElem?_append_some hinode, hlast⟩
    case unpublished => exact h.unpublished
    case readers =>
      intro r hr
      rcases h.readers r hr with ⟨_, v, hinode, hrest⟩
      refine ⟨?_, v, getElem?_append_some hinode, hrest⟩
      intro heq
      exact hnew hinode (Option.some.inj heq).symm

theorem Sound.write {p q : Publication} (h : p.Sound) {bytes : List Char}
    (hwrite : p.write bytes = some q) : q.Sound := by
  unfold Publication.write at hwrite
  split at hwrite
  · rename_i i hi
    cases hwrite
    exact h.set_temp hi _
  · cases hwrite

theorem Sound.rename {p q : Publication} (h : p.Sound) {ok : Bool}
    (hrename : p.rename ok = some q) : q.Sound := by
  unfold Publication.rename at hrename
  split at hrename
  · rename_i i hi
    split at hrename
    · cases hrename
      have hinode : p.inodes[i]? = some (p.content i) := by
        unfold Publication.content
        rw [List.getElem?_eq_getElem (h.temp i hi).left]
        rfl
      constructor
      case temp => exact fun j hj => nomatch hj
      case final =>
        intro j hj
        cases hj
        exact ⟨p.content i, hinode, List.getLast?_concat⟩
      case unpublished => exact fun hnone => nomatch hnone
      case readers =>
        intro r hr
        rcases h.readers r hr with ⟨_, v, hv, hversion, hgot⟩
        exact ⟨(fun heq => nomatch heq), v, hv, getElem?_append_some hversion, hgot⟩
    · cases hrename
      exact h
  · cases hrename

theorem Sound.openFinal {p q : Publication} (h : p.Sound)
    (hopen : p.openFinal = some q) : q.Sound := by
  unfold Publication.openFinal at hopen
  split at hopen
  · rename_i i hi
    cases hopen
    rcases h.final i hi with ⟨v, hinode, hlast⟩
    constructor
    case temp => exact h.temp
    case final => exact h.final
    case unpublished => exact h.unpublished
    case readers =>
      intro r hr
      rcases List.mem_append.mp hr with hold | hnew
      · exact h.readers r hold
      · rw [List.mem_singleton.mp hnew]
        constructor
        · intro heq
          exact (h.temp i heq).right hi
        · rw [List.getLast?_eq_getElem?] at hlast
          exact ⟨v, hinode, hlast, List.nil_prefix⟩
  · cases hopen

theorem take_drop_prefix {got v : List α} (h : got <+: v) (n : Nat) :
    got ++ (v.drop got.length).take n <+: v := by
  rcases h with ⟨rest, rfl⟩
  rw [List.drop_left, List.prefix_append_right_inj]
  exact List.take_prefix n rest

theorem Sound.read {p q : Publication} (h : p.Sound) {r n : Nat}
    (hread : p.read r n = some q) : q.Sound := by
  unfold Publication.read at hread
  split at hread
  · rename_i reader hreader
    cases hread
    constructor
    case temp => exact h.temp
    case final => exact h.final
    case unpublished => exact h.unpublished
    case readers =>
      intro r' hr'
      rcases List.mem_or_eq_of_mem_set hr' with hold | rfl
      · exact h.readers r' hold
      · rcases h.readers reader (List.mem_of_getElem? hreader) with
          ⟨hapart, v, hinode, hversion, hgot⟩
        refine ⟨hapart, v, hinode, hversion, ?_⟩
        have hcontent : p.content reader.inode = v := by
          unfold Publication.content
          rw [hinode]
          rfl
        show reader.got ++ p.next reader n <+: v
        unfold Publication.next
        rw [hcontent]
        exact take_drop_prefix hgot n
  · cases hread

theorem Sound.step {p q : Publication} (h : p.Sound) {e : PublishEvent}
    (hstep : p.step e = some q) : q.Sound := by
  cases e with
  | create =>
      cases hstep
      exact h.create
  | write bytes => exact h.write hstep
  | rename ok => exact h.rename hstep
  | openFinal => exact h.openFinal hstep
  | read r n => exact h.read hstep

/-- A reader that gets nothing more has read its version, from the first character to
the last. -/
theorem Sound.whole {p : Publication} (h : p.Sound) {r : OpenFile} (hr : r ∈ p.readers)
    {n : Nat} (hn : 0 < n) (hend : p.next r n = []) :
    p.versions[r.version]? = some r.got := by
  rcases h.readers r hr with ⟨_, v, hinode, hversion, rest, hgot⟩
  have hcontent : p.content r.inode = v := by
    unfold Publication.content
    rw [hinode]
    rfl
  unfold Publication.next at hend
  rw [hcontent, ← hgot, List.drop_left, List.take_eq_nil_iff] at hend
  rw [hversion, ← hgot, hend.resolve_left (Nat.ne_of_gt hn), List.append_nil]

/-!
# What the events do to the versions
-/

@[simp] theorem create_versions (p : Publication) : p.create.versions = p.versions := by
  unfold create
  split <;> rfl

@[simp] theorem create_readers (p : Publication) : p.create.readers = p.readers := by
  unfold create
  split <;> rfl

theorem create_temp (p : Publication) :
    exists i, p.create.temp = some i ∧ p.create.content i = [] := by
  unfold create content
  split
  · rename_i i hi
    refine ⟨i, hi, ?_⟩
    show ((p.inodes.set i [])[i]?).getD [] = []
    rw [List.getElem?_set]
    split
    · split
      · rfl
      · rfl
    · contradiction
  · exact ⟨p.inodes.length, rfl, by simp⟩

theorem write_spec {p q : Publication} {bytes : List Char} (h : p.Sound)
    (hwrite : p.write bytes = some q) {i : Nat} (hi : p.temp = some i) :
    q.temp = some i ∧ q.versions = p.versions ∧ q.readers = p.readers ∧
      q.content i = p.content i ++ bytes := by
  unfold write at hwrite
  rw [hi] at hwrite
  cases hwrite
  refine ⟨rfl, rfl, rfl, ?_⟩
  show ((p.inodes.set i (p.content i ++ bytes))[i]?).getD [] = _
  rw [List.getElem?_set_self (h.temp i hi).left]
  rfl

theorem rename_spec {p q : Publication} (hrename : p.rename true = some q) {i : Nat}
    (hi : p.temp = some i) :
    q.versions = p.versions ++ [p.content i] ∧ q.readers = p.readers := by
  unfold rename at hrename
  rw [hi] at hrename
  cases hrename
  exact ⟨rfl, rfl⟩

theorem openFinal_spec {p q : Publication} (h : p.Sound)
    (hopen : p.openFinal = some q) :
    exists reader, q.readers[p.readers.length]? = some reader ∧
      reader.version + 1 = p.versions.length := by
  unfold openFinal at hopen
  split at hopen
  · rename_i i hi
    cases hopen
    refine ⟨⟨i, p.versions.length - 1, []⟩, List.getElem?_concat_length, ?_⟩
    rcases h.final i hi with ⟨v, _, hlast⟩
    have hne : p.versions ≠ [] := by
      intro hnil
      rw [hnil] at hlast
      cases hlast
    exact Nat.sub_add_cancel (List.length_pos_iff.mpr hne)
  · cases hopen

theorem openFinal_none {p : Publication} (h : p.Sound) (hopen : p.openFinal = none) :
    p.versions = [] := by
  unfold openFinal at hopen
  split at hopen
  · cases hopen
  · rename_i hfinal
    exact h.unpublished hfinal

theorem read_spec {p q : Publication} {r n : Nat} {reader : OpenFile}
    (hreader : p.readers[r]? = some reader) (hread : p.read r n = some q) :
    q.readers[r]? = some { reader with got := reader.got ++ p.next reader n } := by
  unfold read at hread
  rw [hreader] at hread
  cases hread
  exact List.getElem?_set_self (List.getElem?_eq_some_iff.mp hreader).choose

end Publication

/-!
# Seen from the other side
-/

theorem prefix_of_same {l l' : List α} (h : l' = l) : l <+: l' :=
  h ▸ List.prefix_rfl

structure Publication.Grows (p q : Publication) : Prop where
  readers : q.readers = p.readers
  versions : p.versions <+: q.versions

structure Publication.Looks (p q : Publication) : Prop where
  temp : q.temp = p.temp
  inodes : q.inodes = p.inodes
  versions : q.versions = p.versions

theorem Publication.Looks.content {p q : Publication} (h : p.Looks q) (i : Nat) :
    q.content i = p.content i := by
  unfold Publication.content
  rw [h.inodes]

theorem Publication.Grows.refl (p : Publication) : p.Grows p :=
  ⟨rfl, List.prefix_rfl⟩

namespace Publication

theorem create_grows (p : Publication) : p.Grows p.create :=
  ⟨create_readers p, prefix_of_same (create_versions p)⟩

theorem write_grows {p q : Publication} {bytes : List Char}
    (hwrite : p.write bytes = some q) : p.Grows q := by
  unfold write at hwrite
  split at hwrite
  · cases hwrite
    exact ⟨rfl, List.prefix_rfl⟩
  · cases hwrite

theorem rename_grows {p q : Publication} {ok : Bool} (hrename : p.rename ok = some q) :
    p.Grows q := by
  unfold rename at hrename
  split at hrename
  · split at hrename
    · cases hrename
      exact ⟨rfl, List.prefix_append _ _⟩
    · cases hrename
      exact Grows.refl p
  · cases hrename

theorem openFinal_looks {p q : Publication} (hopen : p.openFinal = some q) :
    p.Looks q := by
  unfold openFinal at hopen
  split at hopen
  · cases hopen
    exact ⟨rfl, rfl, rfl⟩
  · cases hopen

theorem read_looks {p q : Publication} {r n : Nat} (hread : p.read r n = some q) :
    p.Looks q := by
  unfold read at hread
  split at hread
  · cases hread
    exact ⟨rfl, rfl, rfl⟩
  · cases hread

end Publication

/-- What a file holds when it has been published `k` times; it is absent before. -/
def versionText (versions : List (List Char)) : Nat -> Option (List Char)
  | 0 => none
  | k + 1 => versions[k]?

theorem versionText_prefix {versions versions' : List (List Char)} {k : Nat}
    (h : versions <+: versions') (hk : k ≤ versions.length) :
    versionText versions' k = versionText versions k := by
  rcases h with ⟨more, rfl⟩
  cases k with
  | zero => rfl
  | succ k => exact List.getElem?_append_left hk

theorem versionText_none_iff {versions : List (List Char)} {k : Nat}
    (hk : k ≤ versions.length) : versionText versions k = none <-> k = 0 := by
  cases k with
  | zero => exact iff_of_true rfl rfl
  | succ k =>
      show versions[k]? = none <-> k + 1 = 0
      rw [List.getElem?_eq_getElem hk]
      exact iff_of_false (Option.some_ne_none _) (Nat.succ_ne_zero k)

end Foundation
end Breakin
