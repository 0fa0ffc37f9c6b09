import Mathlib.Algebra.Order.Ring.Nat
import Breakin.Foundation.LineReader

/-!
# Following a log file

A reader that opens a file anew at every turn, goes to the offset where it stopped
the last time, calls `fgets` until the end of the file and saves where that
leaves it.  With nothing saved yet it starts at the end.
-/

namespace Breakin
namespace Foundation

structure FileStream where
  content : List Char
  offset : Nat
deriving DecidableEq

namespace FileStream

def opened (content : List Char) : FileStream where
  content := content
  offset := 0

/-- `fseek(fp, 0L, SEEK_END)`. -/
def seekEnd (fp : FileStream) : FileStream :=
  { fp with offset := fp.content.length }

/-- `fseek(fp, n, SEEK_CUR)`: it may go beyond the end. -/
def seekCur (n : Nat) (fp : FileStream) : FileStream :=
  { fp with offset := fp.offset + n }

def unread (fp : FileStream) : List Char :=
  fp.content.drop fp.offset

def fgets (size : Nat) (fp : FileStream) : Option (List Char × FileStream) :=
  match Foundation.fgets size fp.unread with
  | none => none
  | some (line, _) => some (line, fp.seekCur line.length)

/-- `while (fgets(buf, size, fp) != NULL)`: the lines read, and the stream after
the loop. -/
def readLoop (size : Nat) : Nat -> FileStream -> List (List Char) × FileStream
  | 0, fp => ([], fp)
  | fuel + 1, fp =>
      match fp.fgets size with
      | none => ([], fp)
      | some (line, fp') =>
          let result := readLoop size fuel fp'
          (line :: result.1, result.2)

def readToEnd (size : Nat) (fp : FileStream) : List (List Char) × FileStream :=
  readLoop size fp.unread.length fp

end FileStream

/-- The file opened and moved to the saved offset.  The offset `none` is the -1 of
a reader that has not opened the file yet: it goes to the end. -/
def openAt (saved : Option Nat) (content : List Char) : FileStream :=
  match saved with
  | none => (FileStream.opened content).seekEnd
  | some n => (FileStream.opened content).seekCur n

/-- One turn of the reader: what it reads, and the offset `ftell` gives it to
save. -/
def tailFrom (size : Nat) (saved : Option Nat) (content : List Char) :
    List (List Char) × Nat :=
  let result := (openAt saved content).readToEnd size
  (result.1, result.2.offset)

/-!
# One call of fgets
-/

namespace FileStream

@[simp] theorem seekCur_content (n : Nat) (fp : FileStream) :
    (fp.seekCur n).content = fp.content := rfl

@[simp] theorem seekCur_offset (n : Nat) (fp : FileStream) :
    (fp.seekCur n).offset = fp.offset + n := rfl

theorem seekCur_unread (n : Nat) (fp : FileStream) :
    (fp.seekCur n).unread = fp.unread.drop n := by
  unfold unread
  rw [seekCur_content, seekCur_offset, List.drop_drop]

theorem fgets_eq_none {size : Nat} {fp : FileStream} :
    fp.fgets size = none <-> fp.unread = [] := by
  unfold fgets
  cases hline : Foundation.fgets size fp.unread with
  | none => simp [Foundation.fgets_eq_none.mp hline]
  | some result =>
      cases hunread : fp.unread with
      | nil =>
          rw [hunread] at hline
          cases hline
      | cons c rest => simp

theorem fgets_of_unread {size : Nat} {fp : FileStream} {c : Char}
    {rest : List Char} (h : fp.unread = c :: rest) :
    fp.fgets size =
      some ((firstLine fp.unread).take (size - 1),
        fp.seekCur ((firstLine fp.unread).take (size - 1)).length) := by
  unfold fgets
  rw [h]
  rfl

theorem readLoop_of_empty {size fuel : Nat} {fp : FileStream}
    (h : fp.unread = []) : readLoop size fuel fp = ([], fp) := by
  cases fuel with
  | zero => rfl
  | succ fuel =>
      unfold readLoop
      rw [fgets_eq_none.mpr h]

/-!
# The whole loop

The loop ends with everything read, at the end of the file or where it began when
that is further on.
-/

theorem firstLine_take_length {size : Nat} {avail : List Char} (hsize : 1 < size)
    (havail : avail ≠ []) :
    0 < ((firstLine avail).take (size - 1)).length ∧
      ((firstLine avail).take (size - 1)).length ≤ avail.length := by
  cases avail with
  | nil => exact absurd rfl havail
  | cons c rest =>
      have hpre := (firstLine_isPrefix (c :: rest)).length_le
      have hpos : 0 < (firstLine (c :: rest)).length := by
        by_cases hc : c = '\n'
        · simp [firstLine, hc]
        · simp [firstLine, hc]
      rw [List.length_take]
      omega

theorem readLoop_end {size fuel : Nat} {fp : FileStream} (hsize : 1 < size)
    (hfuel : fp.unread.length ≤ fuel) :
    (readLoop size fuel fp).2.offset = max fp.offset fp.content.length := by
  induction fuel generalizing fp with
  | zero =>
      have hlen : fp.content.length - fp.offset ≤ 0 := by
        simpa [unread] using hfuel
      change fp.offset = _
      omega
  | succ fuel ih =>
      cases hunread : fp.unread with
      | nil =>
          rw [readLoop_of_empty hunread]
          have hle : fp.content.length ≤ fp.offset :=
            List.drop_eq_nil_iff.mp hunread
          exact (Nat.max_eq_left hle).symm
      | cons c rest =>
          have hne : fp.unread ≠ [] := by simp [hunread]
          have htake := firstLine_take_length hsize hne
          have hlength : fp.unread.length = fp.content.length - fp.offset :=
            List.length_drop
          unfold readLoop
          rw [fgets_of_unread hunread]
          change (readLoop size fuel _).2.offset = _
          rw [ih]
          · rw [seekCur_offset, seekCur_content]
            omega
          · rw [seekCur_unread, List.length_drop]
            omega

theorem readToEnd_offset {size : Nat} (fp : FileStream) (hsize : 1 < size) :
    (fp.readToEnd size).2.offset = max fp.offset fp.content.length :=
  readLoop_end hsize (Nat.le_refl _)

theorem readLoop_length {size fuel : Nat} {fp : FileStream} {line : List Char}
    (h : line ∈ (readLoop size fuel fp).1) : line.length ≤ size - 1 := by
  induction fuel generalizing fp with
  | zero => cases h
  | succ fuel ih =>
      cases hunread : fp.unread with
      | nil =>
          rw [readLoop_of_empty hunread] at h
          cases h
      | cons c rest =>
          unfold readLoop at h
          rw [fgets_of_unread hunread] at h
          rcases List.mem_cons.mp h with heq | htail
          · rw [heq, List.length_take]
            omega
          · exact ih htail

/-- What the loop makes of one line: its pieces put together are the line, and a
line that fits the buffer is one piece. -/
def ReadAs (size : Nat) (body : List Char) (pieces : List (List Char)) : Prop :=
  pieces.flatten = lineOf body ∧
    (body.length + 1 < size -> pieces = [lineOf body])

theorem firstLine_lineOf {body more : List Char} (hbody : '\n' ∉ body) :
    firstLine (lineOf body ++ more) = lineOf body := by
  apply firstLine_of_arrived hbody List.prefix_rfl
  simp [lineOf]

theorem unread_ne_nil {fp : FileStream} {b more : List Char}
    (hunread : fp.unread = lineOf b ++ more) : fp.unread ≠ [] := by
  simp [hunread, lineOf]

theorem readLoop_turn {size fuel : Nat} {fp : FileStream} {b more : List Char}
    (hb : '\n' ∉ b) (hunread : fp.unread = lineOf b ++ more) :
    (readLoop size (fuel + 1) fp).1 =
      (lineOf b).take (size - 1) ::
        (readLoop size fuel
          (fp.seekCur ((lineOf b).take (size - 1)).length)).1 := by
  have hfirst : firstLine fp.unread = lineOf b := by
    rw [hunread]
    exact firstLine_lineOf hb
  rcases List.exists_cons_of_ne_nil (unread_ne_nil hunread) with
    ⟨c, rest, hcons⟩
  conv => lhs; unfold readLoop
  rw [fgets_of_unread hcons, hfirst]

theorem readLoop_short {size fuel : Nat} {fp : FileStream}
    {b more : List Char} (hb : '\n' ∉ b)
    (hunread : fp.unread = lineOf b ++ more) (hfits : b.length + 1 < size) :
    exists fp', (readLoop size (fuel + 1) fp).1 =
        lineOf b :: (readLoop size fuel fp').1 ∧ fp'.unread = more := by
  have htake : (lineOf b).take (size - 1) = lineOf b := by
    apply List.take_of_length_le
    simp only [lineOf, List.length_append, List.length_singleton]
    omega
  exists fp.seekCur (lineOf b).length
  constructor
  · rw [readLoop_turn hb hunread, htake]
  · rw [seekCur_unread, hunread, List.drop_left]

theorem readLoop_long {size fuel : Nat} {fp : FileStream}
    {b more : List Char} (hb : '\n' ∉ b)
    (hunread : fp.unread = lineOf b ++ more) (hlong : ¬ b.length + 1 < size) :
    exists fp', (readLoop size (fuel + 1) fp).1 =
        b.take (size - 1) :: (readLoop size fuel fp').1 ∧
      fp'.unread = lineOf (b.drop (size - 1)) ++ more := by
  have htake : (lineOf b).take (size - 1) = b.take (size - 1) := by
    unfold lineOf
    rw [List.take_append_of_le_length (by omega)]
  have hlen : (b.take (size - 1)).length = size - 1 := by
    rw [List.length_take]
    omega
  exists fp.seekCur (b.take (size - 1)).length
  constructor
  · rw [readLoop_turn hb hunread, htake]
  · rw [seekCur_unread, hunread, hlen, lineOf, List.append_assoc,
      List.drop_append_of_le_length (by omega), lineOf, List.append_assoc]

theorem readLoop_lines {size fuel : Nat} {fp : FileStream}
    {bodies : List (List Char)} (hsize : 1 < size)
    (hbodies : forall b, b ∈ bodies -> '\n' ∉ b)
    (hunread : fp.unread = streamOf bodies)
    (hfuel : fp.unread.length ≤ fuel) :
    exists groups,
      (readLoop size fuel fp).1 = groups.flatten ∧
        List.Forall₂ (ReadAs size) bodies groups := by
  induction fuel generalizing fp bodies with
  | zero =>
      cases bodies with
      | nil =>
          exists []
          exact ⟨rfl, List.Forall₂.nil⟩
      | cons b rest =>
          rw [hunread] at hfuel
          simp [streamOf, lineOf] at hfuel
  | succ fuel ih =>
      cases bodies with
      | nil =>
          exists []
          rw [readLoop_of_empty hunread]
          exact ⟨rfl, List.Forall₂.nil⟩
      | cons b rest =>
          have hb := hbodies b (by simp)
          have hrest : forall b', b' ∈ rest -> '\n' ∉ b' :=
            fun b' hb' => hbodies b' (List.mem_cons_of_mem b hb')
          have hstream : streamOf (b :: rest) = lineOf b ++ streamOf rest := by
            simp [streamOf]
          rw [hunread, hstream] at hfuel
          simp only [lineOf, List.length_append, List.length_singleton] at hfuel
          rw [hstream] at hunread
          by_cases hfits : b.length + 1 < size
          · rcases @readLoop_short size fuel fp b _ hb hunread hfits with
              ⟨fp', hloop, hnext⟩
            rcases ih hrest hnext (by rw [hnext]; omega) with
              ⟨groups, hreads, hgroups⟩
            exists [lineOf b] :: groups
            constructor
            · rw [hloop, hreads]
              rfl
            · refine List.Forall₂.cons ⟨?_, ?_⟩ hgroups
              · simp
              · intro _
                rfl
          · rcases @readLoop_long size fuel fp b _ hb hunread hfits with
              ⟨fp', hloop, hnext⟩
            have hnext' : fp'.unread =
                streamOf (b.drop (size - 1) :: rest) := by
              rw [hnext]
              simp [streamOf]
            have hbodies' : forall b', b' ∈ b.drop (size - 1) :: rest ->
                '\n' ∉ b' := by
              intro b' hb'
              rcases List.mem_cons.mp hb' with heq | htail
              · rw [heq]
                exact fun hin => hb (List.mem_of_mem_drop hin)
              · exact hrest b' htail
            have hshorter : fp'.unread.length ≤ fuel := by
              rw [hnext]
              simp only [lineOf, List.length_append, List.length_singleton,
                List.length_drop]
              omega
            rcases ih hbodies' hnext' hshorter with ⟨groups, hreads, hgroups⟩
            cases hgroups with
            | @cons _ pieces _ groups' hhead htail =>
                exists (b.take (size - 1) :: pieces) :: groups'
                constructor
                · rw [hloop, hreads]
                  rfl
                · refine List.Forall₂.cons ⟨?_, ?_⟩ htail
                  · rw [List.flatten_cons, hhead.left, lineOf, lineOf,
                      ← List.append_assoc, List.take_append_drop]
                  · intro hlt
                    exact absurd hlt hfits

end FileStream

/-!
# The lines of a file

With their ends; the last one may have none.
-/

def textLines : List Char -> List (List Char)
  | [] => []
  | c :: rest =>
      if c = '\n' then ['\n'] :: textLines rest
      else
        match textLines rest with
        | [] => [[c]]
        | line :: lines => (c :: line) :: lines

theorem textLines_cons (c : Char) (rest : List Char) :
    textLines (c :: rest) =
      firstLine (c :: rest) ::
        textLines ((c :: rest).drop (firstLine (c :: rest)).length) := by
  induction rest generalizing c with
  | nil =>
      by_cases hc : c = '\n'
      · simp [textLines, firstLine, hc]
      · simp [textLines, firstLine, hc]
  | cons d rest ih =>
      by_cases hc : c = '\n'
      · simp [textLines, firstLine, hc]
      · have hfirst : firstLine (c :: d :: rest) =
            c :: firstLine (d :: rest) := by
          rw [firstLine, if_neg hc]
        rw [textLines, if_neg hc, ih d, hfirst]
        rfl

theorem textLines_line {body : List Char} (h : '\n' ∉ body) (rest : List Char) :
    textLines (lineOf body ++ rest) = lineOf body :: textLines rest := by
  induction body with
  | nil => rfl
  | cons c body ih =>
      rw [List.mem_cons, not_or] at h
      have hline : lineOf (c :: body) ++ rest = c :: (lineOf body ++ rest) := rfl
      rw [hline, textLines, if_neg (Ne.symm h.left), ih h.right]
      rfl

theorem textLines_unended {body : List Char} (h : '\n' ∉ body) (hne : body ≠ []) :
    textLines body = [body] := by
  cases body with
  | nil => exact absurd rfl hne
  | cons c rest =>
      induction rest generalizing c with
      | nil =>
          rw [List.mem_singleton] at h
          rw [textLines, if_neg (Ne.symm h)]
          rfl
      | cons d rest ih =>
          rw [List.mem_cons, not_or] at h
          rw [textLines, if_neg (Ne.symm h.left), ih d h.right (List.cons_ne_nil d rest)]

theorem textLines_streamOf {bodies : List (List Char)}
    (h : forall body, body ∈ bodies -> '\n' ∉ body) :
    textLines (streamOf bodies) = bodies.map lineOf := by
  induction bodies with
  | nil => rfl
  | cons body bodies ih =>
      rw [List.forall_mem_cons] at h
      have hstream : streamOf (body :: bodies) = lineOf body ++ streamOf bodies := rfl
      rw [hstream, textLines_line h.left, ih h.right]
      rfl

def lineStart (text : List Char) : Bool :=
  match text.getLast? with
  | none => true
  | some c => c == '\n'

theorem textLines_append {front : List Char} (h : lineStart front = true)
    (rest : List Char) :
    textLines (front ++ rest) = textLines front ++ textLines rest := by
  induction front with
  | nil => rfl
  | cons c front ih =>
      cases front with
      | nil =>
          have hc : c = '\n' := by simpa [lineStart] using h
          rw [hc]
          rfl
      | cons d front =>
          have hmore : textLines (d :: front ++ rest) =
              textLines (d :: front) ++ textLines rest := ih h
          by_cases hc : c = '\n'
          · rw [hc]
            show ['\n'] :: textLines (d :: front ++ rest) = _
            rw [hmore]
            rfl
          · have hjoin : forall more, textLines (c :: d :: more) =
                (c :: firstLine (d :: more)) ::
                  textLines ((d :: more).drop (firstLine (d :: more)).length) := by
              intro more
              rw [textLines, if_neg hc, textLines_cons]
            rw [List.cons_append, textLines_cons, textLines_cons] at hmore
            rcases List.cons.inj hmore with ⟨hfirst, htail⟩
            rw [hfirst] at htail
            rw [List.cons_append, List.cons_append, hjoin, hjoin, hfirst, htail]
            rfl

/-- Lines that fit the buffer are what the calls of `fgets` return. -/
theorem readLoop_textLines {size fuel : Nat} {fp : FileStream}
    (hfuel : fp.unread.length ≤ fuel)
    (hlines : forall line, line ∈ textLines fp.unread ->
      line.length < size) :
    (fp.readLoop size fuel).1 = textLines fp.unread := by
  induction fuel generalizing fp with
  | zero =>
      rw [List.eq_nil_of_length_eq_zero (Nat.le_zero.mp hfuel)]
      rfl
  | succ fuel ih =>
      cases hunread : fp.unread with
      | nil =>
          rw [FileStream.readLoop_of_empty hunread]
          rfl
      | cons c rest =>
          have hcons := textLines_cons c rest
          rw [← hunread] at hcons
          rw [hcons] at hlines
          have hfits := hlines _ (List.mem_cons_self ..)
          have htake : (firstLine fp.unread).take (size - 1) =
              firstLine fp.unread := List.take_of_length_le (by omega)
          have hpos : 0 < (firstLine fp.unread).length := by
            rw [hunread]
            by_cases hc : c = '\n'
            · simp [firstLine, hc]
            · simp [firstLine, hc]
          have hlength : fp.unread.length = rest.length + 1 := by
            rw [hunread]
            rfl
          have hnext : (fp.seekCur (firstLine fp.unread).length).unread =
              fp.unread.drop (firstLine fp.unread).length :=
            FileStream.seekCur_unread _ _
          rw [← hunread, hcons]
          unfold FileStream.readLoop
          rw [FileStream.fgets_of_unread hunread, htake]
          change firstLine fp.unread ::
            (FileStream.readLoop size fuel _).1 = _
          rw [ih, hnext]
          · rw [hnext, List.length_drop]
            omega
          · intro line hline
            rw [hnext] at hline
            exact hlines line (List.mem_cons_of_mem _ hline)

theorem readToEnd_textLines {size : Nat} {content : List Char}
    (hlines : forall line, line ∈ textLines content -> line.length < size) :
    ((FileStream.opened content).readToEnd size).1 = textLines content :=
  readLoop_textLines (Nat.le_refl _) hlines

/-!
# One turn
-/

section Turn

variable {size : Nat}

theorem openAt_content (saved : Option Nat) (content : List Char) :
    (openAt saved content).content = content := by
  cases saved <;> rfl

theorem openAt_some_unread (n : Nat) (content : List Char) :
    (openAt (some n) content).unread = content.drop n := by
  unfold openAt
  rw [FileStream.seekCur_unread]
  rfl

theorem openAt_none_unread (content : List Char) :
    (openAt none content).unread = [] :=
  List.drop_length

theorem tailFrom_none_offset (hsize : 1 < size) (content : List Char) :
    (tailFrom size none content).2 = content.length := by
  have hend := (openAt none content).readToEnd_offset hsize
  rw [openAt_content] at hend
  exact hend.trans (Nat.max_self _)

theorem tailFrom_some_offset (hsize : 1 < size) (n : Nat)
    (content : List Char) :
    (tailFrom size (some n) content).2 = max n content.length := by
  have hend := (openAt (some n) content).readToEnd_offset hsize
  rw [openAt_content] at hend
  have hstart : (openAt (some n) content).offset = n := Nat.zero_add n
  rw [hstart] at hend
  exact hend

/-- A first turn reads nothing, whatever the file holds. -/
theorem tailFrom_none (content : List Char) :
    (tailFrom size none content).1 = [] := by
  unfold tailFrom FileStream.readToEnd
  rw [FileStream.readLoop_of_empty (openAt_none_unread content)]

theorem tailFrom_lines (hsize : 1 < size) {n : Nat} {content : List Char}
    {bodies : List (List Char)}
    (hbodies : forall b, b ∈ bodies -> '\n' ∉ b)
    (hunread : content.drop n = streamOf bodies) :
    exists groups,
      (tailFrom size (some n) content).1 = groups.flatten ∧
        List.Forall₂ (FileStream.ReadAs size) bodies groups := by
  rw [← openAt_some_unread] at hunread
  exact FileStream.readLoop_lines hsize hbodies hunread (Nat.le_refl _)

theorem tailFrom_length {saved : Option Nat} {content line : List Char}
    (h : line ∈ (tailFrom size saved content).1) : line.length ≤ size - 1 :=
  FileStream.readLoop_length h

theorem tailFrom_fitting (hsize : 1 < size) {n : Nat} {content : List Char}
    {bodies : List (List Char)}
    (hbodies : forall b, b ∈ bodies -> '\n' ∉ b ∧ b.length + 1 < size)
    (hunread : content.drop n = streamOf bodies) :
    (tailFrom size (some n) content).1 = bodies.map lineOf := by
  rcases tailFrom_lines hsize (fun b hb => (hbodies b hb).left) hunread
    with ⟨groups, hreads, hgroups⟩
  rw [hreads]
  clear hreads hunread
  induction hgroups with
  | nil => rfl
  | @cons b pieces rest groups' hhead _ ih =>
      have hone := hhead.right (hbodies b (by simp)).right
      rw [hone, List.flatten_cons, List.map_cons,
        ih fun b' hb' => hbodies b' (List.mem_cons_of_mem b hb')]
      rfl

end Turn

/-!
# Starting in the middle of a line
-/

def dropLines : Nat -> List (List Char) -> List (List Char)
  | _, [] => []
  | n, b :: rest =>
      if n ≤ b.length then b.drop n :: rest
      else dropLines (n - (b.length + 1)) rest

theorem streamOf_drop (n : Nat) (bodies : List (List Char)) :
    (streamOf bodies).drop n = streamOf (dropLines n bodies) := by
  induction bodies generalizing n with
  | nil => simp [streamOf, dropLines]
  | cons b rest ih =>
      have hstream : streamOf (b :: rest) = lineOf b ++ streamOf rest := by
        simp [streamOf]
      unfold dropLines
      by_cases hn : n ≤ b.length
      · rw [if_pos hn, hstream, lineOf, List.append_assoc,
          List.drop_append_of_le_length hn]
        simp [streamOf, lineOf]
      · have hline : (lineOf b).length = b.length + 1 := by simp [lineOf]
        rw [if_neg hn, hstream, List.drop_append,
          List.drop_eq_nil_of_le (by omega), List.nil_append, hline, ih]

theorem dropLines_mem {n : Nat} {bodies : List (List Char)} {b' : List Char}
    (h : b' ∈ dropLines n bodies) :
    exists b k, b ∈ bodies ∧ b' = b.drop k := by
  induction bodies generalizing n with
  | nil => cases h
  | cons b rest ih =>
      unfold dropLines at h
      by_cases hn : n ≤ b.length
      · rw [if_pos hn] at h
        rcases List.mem_cons.mp h with heq | htail
        · exact ⟨b, n, by simp, heq⟩
        · exact ⟨b', 0, List.mem_cons_of_mem b htail, rfl⟩
      · rw [if_neg hn] at h
        rcases ih h with ⟨b0, k, hmem, heq⟩
        exact ⟨b0, k, List.mem_cons_of_mem b hmem, heq⟩

end Foundation
end Breakin
