import Breakin.Foundation.CString

/-!
# Tokens of a buffer

`strtok_r` writes a NUL over the delimiter behind each token it returns.  A scan
that starts again at the front of the buffer therefore sees at most the first
token of the string that was there.
-/

namespace Breakin
namespace Foundation

def tokens (delim : Char) (s : CString) : List CString :=
  (s.splitOnP (fun c => c == delim)).filter fun word => !word.isEmpty

section Tokens

variable {delim : Char}

@[simp] theorem tokens_nil : tokens delim [] = [] := rfl

theorem tokens_lead {lead : List Char} (h : forall c, c ∈ lead -> c = delim)
    (s : CString) : tokens delim (lead ++ s) = tokens delim s := by
  induction lead with
  | nil => rfl
  | cons c lead ih =>
      have hc : c = delim := h c (by simp)
      have hrest := ih fun c' hc' => h c' (List.mem_cons_of_mem c hc')
      rw [← hrest, hc, List.cons_append]
      unfold tokens
      rw [List.splitOnP_cons_eq_if_modifyHead]
      simp

theorem splitOnP_word {word : List Char} (h : delim ∉ word) :
    word.splitOnP (fun c => c == delim) = [word] := by
  apply List.splitOnP_eq_singleton
  intro c hc
  rw [beq_eq_false_iff_ne]
  intro heq
  exact h (heq ▸ hc)

theorem tokens_word {word : List Char} (hne : word ≠ []) (h : delim ∉ word) :
    tokens delim word = [word] := by
  unfold tokens
  rw [splitOnP_word h]
  simp [hne]

theorem tokens_word_delim {word : List Char} (hne : word ≠ [])
    (h : delim ∉ word) (s : CString) :
    tokens delim (word ++ delim :: s) = word :: tokens delim s := by
  unfold tokens
  rw [List.splitOnP_append_cons word s (by simp), splitOnP_word h]
  simp [hne]

end Tokens

/-!
# One call
-/

structure Strtok where
  token : Option CString
  buf : List Char
  save : Nat
deriving DecidableEq

/-- `strtok_r` with a single delimiter, from position `p` of the buffer. -/
def strtokR (delim : Char) (buf : List Char) (p : Nat) : Strtok :=
  let s := cstr (buf.drop p)
  let lead := s.takeWhile (fun c => c == delim)
  let body := s.dropWhile (fun c => c == delim)
  let word := body.takeWhile (fun c => c != delim)
  let stop := p + lead.length + word.length
  if word = [] then
    { token := none, buf := buf, save := p + lead.length }
  else if word.length = body.length then
    -- the token ends at the NUL that is there
    { token := some word, buf := buf, save := stop }
  else
    { token := some word, buf := buf.set stop NUL, save := stop + 1 }

def Holds (buf : List Char) (s : CString) : Prop :=
  NUL ∉ s ∧ exists post, buf = s ++ NUL :: post

theorem holds_of_take {buf : List Char} {front : CString} (hnul : NUL ∉ front)
    (h : buf.take (front.length + 1) = front ++ [NUL]) : Holds buf front := by
  refine ⟨hnul, buf.drop (front.length + 1), ?_⟩
  have happend := List.take_append_drop (front.length + 1) buf
  rw [h] at happend
  exact happend.symm.trans (by simp)

section Call

variable {buf : List Char} {p : Nat} {s : CString}

/-- What one call finds in the string at `p`: no token, the last one, or one with
a delimiter behind it. -/
theorem strtokR_cases (delim : Char) (h : Holds (buf.drop p) s) :
    (tokens delim s = [] ∧ (strtokR delim buf p).token = none ∧
      (strtokR delim buf p).buf = buf) ∨
    exists lead word rest, s = lead ++ (word ++ rest) ∧
      (forall c, c ∈ lead -> c = delim) ∧ word ≠ [] ∧ delim ∉ word ∧
        ((rest = [] ∧ strtokR delim buf p =
            { token := some word, buf := buf
              save := p + lead.length + word.length }) ∨
          exists rest', rest = delim :: rest' ∧ strtokR delim buf p =
            { token := some word
              buf := buf.set (p + lead.length + word.length) NUL
              save := p + lead.length + word.length + 1 }) := by
  rcases h with ⟨hnul, post, hbuf⟩
  have hcstr : cstr (buf.drop p) = s := by
    rw [hbuf]
    exact cstr_append_nul hnul post
  have hsplit : s.takeWhile (fun c => c == delim) ++
      s.dropWhile (fun c => c == delim) = s := List.takeWhile_append_dropWhile
  have hlead : forall c, c ∈ s.takeWhile (fun c => c == delim) -> c = delim := by
    intro c hc
    simpa using List.mem_takeWhile_imp hc
  have hword : delim ∉
      (s.dropWhile (fun c => c == delim)).takeWhile (fun c => c != delim) := by
    intro hc
    simpa using List.mem_takeWhile_imp hc
  generalize hl : s.takeWhile (fun c => c == delim) = lead at hsplit hlead
  generalize hb : s.dropWhile (fun c => c == delim) = body at hsplit hword
  have hbody : body.takeWhile (fun c => c != delim) ++
      body.dropWhile (fun c => c != delim) = body :=
    List.takeWhile_append_dropWhile
  generalize hw : body.takeWhile (fun c => c != delim) = word at hword hbody
  unfold strtokR
  simp only [hcstr, hl, hb, hw]
  by_cases hempty : word = []
  · left
    rw [if_pos hempty]
    refine ⟨?_, rfl, rfl⟩
    have hnone : body = [] := by
      cases body with
      | nil => rfl
      | cons c rest =>
          exfalso
          have hc : ¬ (c == delim) = true := by
            have hhead := List.head?_dropWhile_not (fun c => c == delim) s
            rw [hb] at hhead
            simpa using hhead
          rw [hempty, List.takeWhile_cons_of_pos (by simpa using hc)] at hw
          cases hw
    rw [← hsplit, tokens_lead hlead, hnone]
    rfl
  · right
    rw [if_neg hempty]
    refine ⟨lead, word, body.dropWhile (fun c => c != delim), ?_, hlead, hempty,
      hword, ?_⟩
    · rw [hbody, hsplit]
    · have hlength := congrArg List.length hbody
      rw [List.length_append] at hlength
      cases hrest : body.dropWhile (fun c => c != delim) with
      | nil =>
          rw [hrest] at hlength
          left
          exact ⟨rfl, if_pos (by simpa using hlength)⟩
      | cons c rest' =>
          rw [hrest, List.length_cons] at hlength
          right
          have hc : c = delim := by
            have hhead := List.head?_dropWhile_not (fun c => c != delim) body
            rw [hrest] at hhead
            simpa using hhead
          exact ⟨rest', by rw [hc], if_neg (by omega)⟩

theorem drop_past {lead word tail : List Char}
    (h : buf.drop p = lead ++ (word ++ tail)) :
    buf.drop (p + lead.length + word.length) = tail := by
  rw [Nat.add_assoc, ← List.drop_drop, h, ← List.length_append,
    ← List.append_assoc, List.drop_left]

theorem strtokR_take (delim : Char) (buf : List Char) (p : Nat) :
    (strtokR delim buf p).buf.take p = buf.take p ∧
      p ≤ (strtokR delim buf p).save := by
  unfold strtokR
  simp only
  split
  · exact ⟨rfl, Nat.le_add_right _ _⟩
  · split
    · refine ⟨rfl, ?_⟩
      simp only
      omega
    · refine ⟨List.take_set_of_le (by omega), ?_⟩
      simp only
      omega

end Call

/-!
# Looking for a token
-/

/-- The loop that calls `strtok_r` until a token equals `name` or there are no
more.  `turns` bounds it; every call but the last moves on in the buffer. -/
def scan (delim : Char) (name : CString) :
    Nat -> List Char -> Nat -> Bool × List Char
  | 0, buf, _ => (false, buf)
  | turns + 1, buf, p =>
      let r := strtokR delim buf p
      match r.token with
      | none => (false, r.buf)
      | some word =>
          if word = name then
            (true, r.buf)
          else
            scan delim name turns r.buf r.save

section Scan

variable {delim : Char} {name : CString}

theorem scan_take (delim : Char) (name : CString) (turns : Nat)
    (buf : List Char) (p : Nat) :
    (scan delim name turns buf p).2.take p = buf.take p := by
  induction turns generalizing buf p with
  | zero => rfl
  | succ turns ih =>
      rcases strtokR_take delim buf p with ⟨htake, hsave⟩
      unfold scan
      simp only
      split
      · exact htake
      · split
        · exact htake
        · have hrest := congrArg (List.take p)
            (ih (strtokR delim buf p).buf (strtokR delim buf p).save)
          rw [List.take_take, List.take_take, Nat.min_eq_left hsave] at hrest
          rw [hrest, htake]

theorem scan_end {turns : Nat} {buf : List Char} {p : Nat}
    (h : Holds (buf.drop p) []) :
    scan delim name turns buf p = (false, buf) := by
  cases turns with
  | zero => rfl
  | succ turns =>
      have hcall := strtokR_cases delim h
      unfold scan
      rcases hcall with ⟨_, htoken, hbuf⟩ | ⟨lead, word, rest, hs, _, hne, _⟩
      · simp only [htoken, hbuf]
      · simp [hne] at hs

/-- The scan finds a name exactly when it is a token of the string at `p`. -/
theorem scan_found {turns : Nat} {buf : List Char} {p : Nat} {s : CString}
    (h : Holds (buf.drop p) s) (hturns : s.length < turns) :
    (scan delim name turns buf p).1 = decide (name ∈ tokens delim s) := by
  induction turns generalizing buf p s with
  | zero => cases hturns
  | succ turns ih =>
      have hcall := strtokR_cases delim h
      rcases h with ⟨hnul, post, hbuf⟩
      unfold scan
      rcases hcall with ⟨hnone, htoken, _⟩ |
        ⟨lead, word, rest, hs, hlead, hne, hword, hcase⟩
      · simp [htoken, hnone]
      · have hpos : 0 < word.length := List.length_pos_iff.mpr hne
        have hlen := congrArg List.length hs
        simp only [List.length_append] at hlen
        rcases hcase with ⟨hrest, hstrtok⟩ | ⟨rest', hrest, hstrtok⟩
        · have htokens : tokens delim s = [word] := by
            rw [hs, hrest, List.append_nil, tokens_lead hlead,
              tokens_word hne hword]
          have hend : Holds
              (buf.drop (p + lead.length + word.length)) [] := by
            refine ⟨by simp, post, drop_past ?_⟩
            rw [hbuf, hs, hrest]
            simp
          simp only [hstrtok, htokens]
          by_cases heq : word = name
          · simp [heq]
          · rw [if_neg heq, scan_end hend]
            simp [Ne.symm heq]
        · have htokens : tokens delim s = word :: tokens delim rest' := by
            rw [hs, hrest, tokens_lead hlead, tokens_word_delim hne hword]
          have hnext : Holds
              ((buf.set (p + lead.length + word.length) NUL).drop
                (p + lead.length + word.length + 1)) rest' := by
            refine ⟨?_, post, ?_⟩
            · intro hmem
              apply hnul
              rw [hs, hrest]
              simp [hmem]
            · have hpast : buf.drop (p + lead.length + word.length) =
                  delim :: (rest' ++ NUL :: post) := by
                apply drop_past
                rw [hbuf, hs, hrest]
                simp
              rw [List.drop_set_of_lt (Nat.lt_add_one _), ← List.drop_drop,
                hpast]
              rfl
          simp only [hstrtok, htokens]
          by_cases heq : word = name
          · simp [heq]
          · rw [if_neg heq, ih hnext (by rw [hrest] at hlen; simp at hlen; omega)]
            simp [Ne.symm heq]

/-- What a scan from the front leaves in the buffer: a string with at most the
first token. -/
theorem scan_holds {turns : Nat} {buf : List Char} {s : CString}
    (h : Holds buf s) :
    exists s', Holds (scan delim name (turns + 1) buf 0).2 s' ∧
      tokens delim s' = (tokens delim s).take 1 := by
  have h0 : Holds (buf.drop 0) s := h
  have hcall := strtokR_cases delim h0
  rcases h with ⟨hnul, post, hbuf⟩
  unfold scan
  rcases hcall with ⟨hnone, htoken, hsame⟩ |
    ⟨lead, word, rest, hs, hlead, hne, hword, hcase⟩
  · refine ⟨s, ?_, by rw [hnone]; rfl⟩
    simp only [htoken, hsame]
    exact h0
  · rcases hcase with ⟨hrest, hstrtok⟩ | ⟨rest', hrest, hstrtok⟩
    · have htokens : tokens delim s = [word] := by
        rw [hs, hrest, List.append_nil, tokens_lead hlead,
          tokens_word hne hword]
      refine ⟨s, ?_, by rw [htokens]; rfl⟩
      have hend : Holds (buf.drop (0 + lead.length + word.length)) [] := by
        refine ⟨by simp, post, drop_past ?_⟩
        rw [List.drop_zero, hbuf, hs, hrest]
        simp
      simp only [hstrtok]
      by_cases heq : word = name
      · rw [if_pos heq]
        exact h0
      · rw [if_neg heq, scan_end hend]
        exact h0
    · have htokens : tokens delim s = word :: tokens delim rest' := by
        rw [hs, hrest, tokens_lead hlead, tokens_word_delim hne hword]
      refine ⟨lead ++ word, ?_, ?_⟩
      · have hfirst : NUL ∉ lead ++ word := by
          intro hmem
          apply hnul
          rw [hs, ← List.append_assoc]
          exact List.mem_append_left _ hmem
        have hfront : (buf.set (lead.length + word.length) NUL).take
            (lead.length + word.length + 1) = lead ++ word ++ [NUL] := by
          rw [hbuf, hs, hrest]
          have hassoc : lead ++ (word ++ delim :: rest') ++ NUL :: post =
              (lead ++ word) ++ (delim :: (rest' ++ NUL :: post)) := by
            simp
          rw [hassoc, ← List.length_append,
            List.set_append_right _ _ (Nat.le_refl _), Nat.sub_self,
            List.set_cons_zero, List.take_length_add_append]
          rfl
        -- the NUL behind the first token stays, wherever the scan ends
        have hkeep : forall buf', buf'.take (lead.length + word.length + 1) =
            (buf.set (lead.length + word.length) NUL).take
              (lead.length + word.length + 1) -> Holds buf' (lead ++ word) := by
          intro buf' htake
          apply holds_of_take hfirst
          rw [List.length_append, htake, hfront]
        simp only [hstrtok, Nat.zero_add]
        by_cases heq : word = name
        · rw [if_pos heq]
          exact hkeep _ rfl
        · rw [if_neg heq]
          exact hkeep _ (scan_take _ _ _ _ _)
      · rw [htokens, tokens_lead hlead, tokens_word hne hword]
        rfl

end Scan

end Foundation
end Breakin
