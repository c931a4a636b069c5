import Graft.Proofs.Brace.Scan
import Graft.Proofs.Text.Occurrences

/-!
# Leaping over strings and comments

The scanner reads a text character by character, although a comment or a string could be left at
once by a search for its end. A reader that does so is `leaps`: where a comment or a string begins,
it goes on behind it, and everywhere else at the next character.

Leaving a string in one leap comes to the same as reading code and passing over as many characters
as it has. So one lemma for each construct tells how many characters it takes until the scanner is
back in code (`scan_lineComment` and so on).

> `leaps_eq_bracesFrom`: both readers find the same braces.
-/

namespace Graft

open Text

namespace Leap

/-- How many characters a string of one line has behind its first quote. A backslash is taken with
the character that it hides, and the line feed that ends the line is not part of the string. -/
def quotedSize (quote : CodePoint) : Text → Nat
  | [] => 0
  | c :: r =>
    if c = .char '\\' then
      match r with
      | [] => 1
      | _ :: r => quotedSize quote r + 2
    else if c = quote then 1
    else if c = .char '\n' then 0
    else quotedSize quote r + 1

/-- How many characters the comment or the string takes that a text starts with, if it does. What is
not closed takes the rest of the text. -/
def size? : Text → Option Nat
  | [] => none
  | c :: r =>
    if [.char '/', .char '/'].isPrefixOf (c :: r) then
      some ((search [.char '\n'] (c :: r)).getD (c :: r).length)
    else if [.char '/', .char '*'].isPrefixOf (c :: r) then
      some (((search [.char '*', .char '/'] (r.drop 1)).map (· + 4)).getD (c :: r).length)
    else if ScanState.isQuote c then
      if [c, c, c].isPrefixOf (c :: r) then
        some (((search [c, c, c] (r.drop 2)).map (· + 6)).getD (c :: r).length)
      else some (quotedSize c r + 1)
    else none

/-- The structural braces of a text whose first character has index `i`, found in leaps. The first
`skip` characters are left out. -/
def leapFrom : Nat → Nat → Text → List BraceAt
  | _, _, [] => []
  | skip + 1, i, _ :: r => leapFrom skip (i + 1) r
  | 0, i, c :: r =>
    match size? (c :: r) with
    | some size => leapFrom (size - 1) (i + 1) r
    | none =>
      match Brace.ofChar? c with
      | some b => ⟨i, b⟩ :: leapFrom 0 (i + 1) r
      | none => leapFrom 0 (i + 1) r

end Leap

/-- The structural braces of `t` from index `start` on, found in leaps. -/
def leaps (t : Text) (start : Nat) : List BraceAt :=
  Leap.leapFrom 0 start (t.drop start)

namespace ScanState

variable {mode : ScanMode} {c q : CodePoint} {t r : Text}

/-! ## Mode by mode -/

theorem next_lineComment (c : CodePoint) (r : Text) :
    next ⟨.lineComment, 0⟩ c r = if c = .char '\n' then start else ⟨.lineComment, 0⟩ := rfl

theorem next_blockComment (c : CodePoint) (r : Text) : next ⟨.blockComment, 0⟩ c r =
    if c = .char '*' && r.head? == some (.char '/') then ⟨.code, 1⟩ else ⟨.blockComment, 0⟩ := rfl

theorem next_quoted (q c : CodePoint) (r : Text) : next ⟨.quoted q, 0⟩ c r =
    if c = .char '\\' then ⟨.quoted q, 1⟩
    else if c = q || c = .char '\n' then start else ⟨.quoted q, 0⟩ := rfl

theorem next_tripled (q c : CodePoint) (r : Text) : next ⟨.tripled q, 0⟩ c r =
    if c = q && [q, q].isPrefixOf r then ⟨.code, 2⟩ else ⟨.tripled q, 0⟩ := rfl

theorem scan_cons_of_none {s : ScanState} (h : s.brace? c = none) (i : Nat) (r : Text) :
    s.scan i (c :: r) = (s.next c r).scan (i + 1) r := by
  rw [scan, h]

theorem brace?_of_ne {s : ScanState} (h : s ≠ start) (c : CodePoint) : s.brace? c = none := by
  rw [brace?, if_neg h]

theorem scan_skip (mode : ScanMode) (n i : Nat) (c : CodePoint) (r : Text) :
    scan ⟨mode, n + 1⟩ i (c :: r) = scan ⟨mode, n⟩ (i + 1) r :=
  scan_cons_of_none (brace?_of_ne (by simp [start]) c) i r

theorem scan_of_mode (h : mode ≠ .code) (i : Nat) (c : CodePoint) (r : Text) :
    scan ⟨mode, 0⟩ i (c :: r) = (next ⟨mode, 0⟩ c r).scan (i + 1) r :=
  scan_cons_of_none (brace?_of_ne (by simp [start, h]) c) i r

theorem scan_lineFeed (i : Nat) (r : Text) :
    start.scan i (.char '\n' :: r) = start.scan (i + 1) r :=
  scan_cons_of_none rfl i r

theorem isPrefixOf_pair (a b c : CodePoint) (r : Text) :
    [a, b].isPrefixOf (c :: r) = (c = a && r.head? == some b) := by
  rw [List.isPrefixOf, Bool.beq_comm]
  cases r with
  | nil => rfl
  | cons d r =>
    rw [List.head?_cons, List.isPrefixOf, Bool.beq_comm (a := b)]
    simp [Bool.beq_eq_decide_eq]

/-! ## How far it is to the end -/

/-- A count of characters up to what is found, or of all there are. -/
theorem getD_map_succ (n k : Nat) (found : Option Nat) :
    ((found.map (· + 1)).map (· + k)).getD (n + 1) = (found.map (· + k)).getD n + 1 := by
  cases found with
  | none => rfl
  | some j => exact Nat.add_right_comm j 1 k

theorem scan_lineComment (i : Nat) (t : Text) :
    scan ⟨.lineComment, 0⟩ i t = scan ⟨.code, (search [.char '\n'] t).getD t.length⟩ i t := by
  induction t generalizing i with
  | nil => rfl
  | cons c r ih =>
    rw [scan_of_mode (by simp), next_lineComment]
    by_cases hc : c = .char '\n'
    · subst hc
      exact (scan_lineFeed i r).symm
    · have hnot : [.char '\n'].isPrefixOf (c :: r) = false := by
        rw [List.isPrefixOf, beq_eq_false_iff_ne.2 (Ne.symm hc), Bool.false_and]
      have hsize : ((search [.char '\n'] r).map (· + 1)).getD (c :: r).length =
          (search [.char '\n'] r).getD r.length + 1 := by
        cases search [.char '\n'] r <;> rfl
      rw [if_neg hc, search, hnot, if_neg (by simp), hsize, scan_skip, ih]

theorem scan_blockComment (i : Nat) (t : Text) : scan ⟨.blockComment, 0⟩ i t =
    scan ⟨.code, ((search [.char '*', .char '/'] t).map (· + 2)).getD t.length⟩ i t := by
  induction t generalizing i with
  | nil => rfl
  | cons c r ih =>
    rw [scan_of_mode (by simp), next_blockComment, ← isPrefixOf_pair, search]
    by_cases hend : [.char '*', .char '/'].isPrefixOf (c :: r) = true
    · rw [if_pos hend, if_pos hend]
      exact (scan_skip .code 1 i c r).symm
    · rw [if_neg hend, if_neg hend, List.length_cons, getD_map_succ, scan_skip, ih]

theorem scan_tripled (q : CodePoint) (i : Nat) (t : Text) : scan ⟨.tripled q, 0⟩ i t =
    scan ⟨.code, ((search [q, q, q] t).map (· + 3)).getD t.length⟩ i t := by
  induction t generalizing i with
  | nil => rfl
  | cons c r ih =>
    have hcond : (c = q && [q, q].isPrefixOf r) = [q, q, q].isPrefixOf (c :: r) := by
      rw [List.isPrefixOf, Bool.beq_comm]
      rfl
    rw [scan_of_mode (by simp), next_tripled, hcond, search]
    by_cases hend : [q, q, q].isPrefixOf (c :: r) = true
    · rw [if_pos hend, if_pos hend]
      exact (scan_skip .code 2 i c r).symm
    · rw [if_neg hend, if_neg hend, List.length_cons, getD_map_succ, scan_skip, ih]

theorem scan_quoted (q : CodePoint) (i : Nat) (t : Text) :
    scan ⟨.quoted q, 0⟩ i t = scan ⟨.code, Leap.quotedSize q t⟩ i t := by
  fun_induction Leap.quotedSize q t generalizing i with
  | case1 => rfl
  | case2 => rfl
  | case3 c r ih =>
    rw [scan_of_mode (by simp), next_quoted, if_pos rfl, scan_skip, scan_skip, scan_skip, ih]
  | case4 r hne =>
    rw [scan_of_mode (by simp), next_quoted, if_neg hne, if_pos (by simp), scan_skip]
    rfl
  | case5 r hne hq =>
    rw [scan_of_mode (by simp), next_quoted, if_neg hne, if_pos (by simp)]
    exact (scan_lineFeed i r).symm
  | case6 c r hne hq hfeed ih =>
    rw [scan_of_mode (by simp), next_quoted, if_neg hne, if_neg (by simp [hq, hfeed]), scan_skip, ih]

/-! ## Leaps -/

/-- A quote opens a string of several lines if there are two more, and otherwise one of one line. -/
theorem scan_quote (hquote : isQuote c = true) (i : Nat) (r : Text) : start.scan i (c :: r) =
    scan (if [c, c].isPrefixOf r then ⟨.tripled c, 2⟩ else ⟨.quoted c, 0⟩) (i + 1) r := by
  have hslash : c ≠ .char '/' := by
    rintro rfl
    cases hquote
  have hbrace : start.brace? c = none := by
    rcases Bool.or_eq_true_iff.1 hquote with hc | hc
    · rw [eq_of_beq hc]
      rfl
    · rw [eq_of_beq hc]
      rfl
  have hnext : start.next c r =
      if [c, c].isPrefixOf r then ⟨.tripled c, 2⟩ else ⟨.quoted c, 0⟩ := by
    simp [next, start, hslash, hquote]
  rw [scan_cons_of_none hbrace, hnext]

/-- A comment or a string at the front of a text is passed over as a whole. -/
theorem scan_of_size? {n : Nat} (h : Leap.size? (c :: r) = some n) (i : Nat) :
    start.scan i (c :: r) = scan ⟨.code, n - 1⟩ (i + 1) r := by
  rw [Leap.size?] at h
  split at h
  · next hline =>
    obtain ⟨u, hu⟩ := List.isPrefixOf_iff_prefix.1 hline
    obtain ⟨rfl, rfl⟩ := List.cons.inj hu
    cases h
    have hsize : (search [.char '\n'] (.char '/' :: .char '/' :: u)).getD
        (.char '/' :: .char '/' :: u).length = (search [.char '\n'] u).getD u.length + 2 := by
      have hsearch : search [.char '\n'] ([.char '/', .char '/'] ++ u) =
          (search [.char '\n'] u).map (· + 2) :=
        search_append (by decide) [] u
      rw [show search [.char '\n'] (.char '/' :: .char '/' :: u) = _ from hsearch]
      cases search [.char '\n'] u <;> rfl
    rw [show [.char '/'].append u = .char '/' :: u from rfl, hsize,
      Nat.add_sub_cancel_right _ 1, scan_skip, ← scan_lineComment]
    rfl
  · split at h
    · next hblock =>
      obtain ⟨u, hu⟩ := List.isPrefixOf_iff_prefix.1 hblock
      obtain ⟨rfl, rfl⟩ := List.cons.inj hu
      cases h
      have hsize : ((search [.char '*', .char '/'] u).map (· + 4)).getD
          (.char '/' :: .char '*' :: u).length =
          ((search [.char '*', .char '/'] u).map (· + 2)).getD u.length + 2 := by
        cases search [.char '*', .char '/'] u <;> rfl
      rw [show [.char '*'].append u = .char '*' :: u from rfl, List.drop_succ_cons,
        List.drop_zero, hsize, Nat.add_sub_cancel_right _ 1, scan_skip, ← scan_blockComment]
      rfl
    · split at h
      · next hquote =>
        rw [show [c, c, c].isPrefixOf (c :: r) = [c, c].isPrefixOf r by simp] at h
        rw [scan_quote hquote]
        split at h
        · next hthree =>
          obtain ⟨u, rfl⟩ := List.isPrefixOf_iff_prefix.1 hthree
          cases h
          have hsize : ((search [c, c, c] u).map (· + 6)).getD (c :: c :: c :: u).length =
              ((search [c, c, c] u).map (· + 3)).getD u.length + 3 := by
            cases search [c, c, c] u <;> rfl
          rw [if_pos hthree]
          simp only [List.cons_append, List.nil_append, List.drop_succ_cons, List.drop_zero, hsize,
            Nat.add_sub_cancel_right _ 1, scan_skip]
          exact scan_tripled c _ u
        · next hthree =>
          cases h
          rw [if_neg hthree, Nat.add_sub_cancel]
          exact scan_quoted c _ r
      · cases h

/-- Where neither a comment nor a string begins, the scanner stays in code. -/
theorem next_of_size?_eq_none (h : Leap.size? (c :: r) = none) : start.next c r = start := by
  rw [Leap.size?, isPrefixOf_pair, isPrefixOf_pair] at h
  show (if _ then _ else _) = start
  split at h
  · cases h
  · next hline =>
    split at h
    · cases h
    · next hblock =>
      split at h
      · split at h <;> cases h
      · next hquote =>
        rw [if_neg hline, if_neg hblock, if_neg hquote]
        rfl

theorem leapFrom_eq_scan (skip i : Nat) (t : Text) :
    Leap.leapFrom skip i t = scan ⟨.code, skip⟩ i t := by
  fun_induction Leap.leapFrom skip i t with
  | case1 => rfl
  | case2 skip i c r ih => rw [scan_skip, ih]
  | case3 i c r size hsize ih => rw [ih, show scan ⟨.code, 0⟩ i (c :: r) = _ from scan_of_size? hsize i]
  | case4 i c r hsize b hb ih =>
    rw [ih, scan, show brace? ⟨.code, 0⟩ c = _ from hb,
      show next ⟨.code, 0⟩ c r = _ from next_of_size?_eq_none hsize]
    rfl
  | case5 i c r hsize hb ih =>
    rw [ih, scan, show brace? ⟨.code, 0⟩ c = _ from hb,
      show next ⟨.code, 0⟩ c r = _ from next_of_size?_eq_none hsize]
    rfl

end ScanState

/-- **Leaping and reading character by character find the same braces.** -/
theorem leaps_eq_bracesFrom (t : Text) (i : Nat) : leaps t i = bracesFrom t i :=
  ScanState.leapFrom_eq_scan 0 i (t.drop i)

end Graft
