import Graft.Proofs.Brace.Leaps
import Graft.Proofs.Brace.Partners

/-!
# The character automaton

Which braces are structural can be decided without ever looking ahead, by an automaton that reads one
character at a time. It has to remember what may still become something else: a slash that may begin
a comment, an asterisk that may end one, one or two quotes that may become three.

The scanner does look ahead, and it knows already what the automaton will learn. So the state of the
scanner is that of the automaton together with the text that follows (`Reading.foresee`), and one
step of each leads to the same again (`Reading.next_foresee`).

> `bracesFrom_spec`: the scanner finds the braces at which the automaton is in code, in ascending
> order, and from each of them on it finds the same; and so does the reader in leaps.
-/

namespace Graft

open Text ScanState

/-- A character that opens and closes strings. -/
inductive Quote where
  | single
  | double
  deriving DecidableEq, Repr

namespace Quote

def toChar : Quote → CodePoint
  | single => .char '\''
  | double => .char '"'

def ofChar? (c : CodePoint) : Option Quote :=
  if c = .char '\'' then some single else if c = .char '"' then some double else none

end Quote

/-- What the automaton knows of the text it has read. -/
inductive Reading where
  /-- It is in code. -/
  | code
  /-- It is in code, behind a slash. -/
  | slash
  /-- It is in a comment up to the end of the line. -/
  | lineComment
  /-- It is in a comment up to the next `*/`. -/
  | blockComment
  /-- It is in such a comment, behind an asterisk. -/
  | star
  /-- It is behind the first quote of a string. -/
  | one (q : Quote)
  /-- It is in code behind an empty string, unless a third quote follows. -/
  | two (q : Quote)
  /-- It is in a string of one line. -/
  | quoted (q : Quote)
  /-- It is in such a string, behind a backslash that hides the next character. -/
  | escaped (q : Quote)
  /-- It is in a string between three quotes. -/
  | tripled (q : Quote)
  /-- It is in such a string, behind a quote. -/
  | closingOne (q : Quote)
  /-- It is in such a string, behind two quotes. -/
  | closingTwo (q : Quote)
  deriving DecidableEq, Repr

namespace Reading

/-- What a character in code leads to. -/
def ofCode (c : CodePoint) : Reading :=
  if c = .char '/' then slash
  else
    match Quote.ofChar? c with
    | some q => one q
    | none => code

/-- What a character in a string of one line leads to. -/
def ofQuoted (q : Quote) (c : CodePoint) : Reading :=
  if c = .char '\\' then escaped q
  else if c = q.toChar then code
  else if c = .char '\n' then code
  else quoted q

/-- One step of the automaton. -/
def step : Reading → CodePoint → Reading
  | code, c => ofCode c
  | slash, c =>
    if c = .char '/' then lineComment else if c = .char '*' then blockComment else ofCode c
  | lineComment, c => if c = .char '\n' then code else lineComment
  | blockComment, c => if c = .char '*' then star else blockComment
  | star, c => if c = .char '/' then code else if c = .char '*' then star else blockComment
  | one q, c => if c = q.toChar then two q else ofQuoted q c
  | two q, c => if c = q.toChar then tripled q else ofCode c
  | quoted q, c => ofQuoted q c
  | escaped q, _ => quoted q
  | tripled q, c => if c = q.toChar then closingOne q else tripled q
  | closingOne q, c => if c = q.toChar then closingTwo q else tripled q
  | closingTwo q, c => if c = q.toChar then code else tripled q

/-- What reading a text leads to. -/
def run (r : Reading) (t : Text) : Reading :=
  t.foldl step r

/-- Whether the automaton is in code. -/
def inCode : Reading → Bool
  | code => true
  | slash => true
  | two _ => true
  | _ => false

/-- The state of the scanner where the automaton has read so far, and a text follows. -/
def foresee : Reading → Text → ScanState
  | code, _ => start
  | slash, t =>
    if t.head? == some (.char '/') then ⟨.lineComment, 1⟩
    else if t.head? == some (.char '*') then ⟨.blockComment, 1⟩
    else start
  | lineComment, _ => ⟨.lineComment, 0⟩
  | blockComment, _ => ⟨.blockComment, 0⟩
  | star, t => if t.head? == some (.char '/') then ⟨.code, 1⟩ else ⟨.blockComment, 0⟩
  | one q, t =>
    if [q.toChar, q.toChar].isPrefixOf t then ⟨.tripled q.toChar, 2⟩ else ⟨.quoted q.toChar, 0⟩
  | two q, t => if t.head? == some q.toChar then ⟨.tripled q.toChar, 1⟩ else start
  | quoted q, _ => ⟨.quoted q.toChar, 0⟩
  | escaped q, _ => ⟨.quoted q.toChar, 1⟩
  | tripled q, _ => ⟨.tripled q.toChar, 0⟩
  | closingOne q, t =>
    if [q.toChar, q.toChar].isPrefixOf t then ⟨.code, 2⟩ else ⟨.tripled q.toChar, 0⟩
  | closingTwo q, t => if t.head? == some q.toChar then ⟨.code, 1⟩ else ⟨.tripled q.toChar, 0⟩

variable {r : Reading} {q : Quote} {c : CodePoint} {t : Text}

theorem ofChar?_eq_some_iff : Quote.ofChar? c = some q ↔ c = q.toChar := by
  constructor
  · intro h
    unfold Quote.ofChar? at h
    split at h
    · next hc =>
      cases h
      exact hc
    · split at h
      · next hc =>
        cases h
        exact hc
      · cases h
  · rintro rfl
    cases q <;> rfl

theorem isQuote_eq (c : CodePoint) : isQuote c = (Quote.ofChar? c).isSome := by
  unfold isQuote Quote.ofChar?
  split
  · next hc => simp [hc]
  · next hc =>
    split
    · next hc' => simp [hc']
    · next hc' => simp [hc, hc']

/-- In code, both go on alike. -/
theorem foresee_ofCode (c : CodePoint) (t : Text) : foresee (ofCode c) t = start.next c t := by
  show _ = if c = .char '/' && t.head? == some (.char '/') then _ else _
  by_cases hc : c = .char '/'
  · subst hc
    rfl
  · have hslash : decide (c = .char '/') = false := decide_eq_false hc
    rw [ofCode, if_neg hc, hslash, isQuote_eq]
    cases hq : Quote.ofChar? c with
    | none => rfl
    | some q =>
      obtain rfl := ofChar?_eq_some_iff.1 hq
      rfl

/-- In a string of one line, both go on alike. -/
theorem foresee_ofQuoted (q : Quote) (c : CodePoint) (t : Text) :
    foresee (ofQuoted q c) t = ScanState.next ⟨.quoted q.toChar, 0⟩ c t := by
  rw [next_quoted, ofQuoted]
  split
  · rfl
  · split
    · next hc =>
      rw [if_pos (by simp [hc])]
      rfl
    · next hc =>
      split
      · next hfeed =>
        rw [if_pos (by simp [hfeed])]
        rfl
      · next hfeed =>
        rw [if_neg (by simp [hc, hfeed])]
        rfl

/-- A text that starts with another character does not start with two of one. -/
theorem isPrefixOf_pair_of_head? (h : (t.head? == some c) = false) :
    [c, c].isPrefixOf t = false := by
  cases t with
  | nil => rfl
  | cons d t =>
    rw [List.head?_cons] at h
    rw [isPrefixOf_pair, decide_eq_false (by simpa using h), Bool.false_and]

/-- **Step by step, the scanner knows what the automaton learns.** -/
theorem next_foresee (r : Reading) (c : CodePoint) (t : Text) :
    (r.foresee (c :: t)).next c t = (r.step c).foresee t := by
  cases r with
  | code => exact (foresee_ofCode c t).symm
  | slash =>
    rw [foresee, step, List.head?_cons]
    by_cases hslash : c = .char '/'
    · subst hslash
      rfl
    · by_cases hstar : c = .char '*'
      · subst hstar
        rfl
      · rw [if_neg (by simpa using hslash), if_neg (by simpa using hstar), if_neg hslash,
          if_neg hstar, foresee_ofCode]
  | lineComment =>
    rw [step, foresee, next_lineComment]
    split <;> rfl
  | blockComment =>
    rw [step, foresee, next_blockComment]
    by_cases hc : c = .char '*'
    · subst hc
      rfl
    · rw [if_neg (by simp [hc]), if_neg hc]
      rfl
  | star =>
    rw [step, foresee, List.head?_cons]
    by_cases hslash : c = .char '/'
    · subst hslash
      rfl
    · rw [if_neg (by simpa using hslash), if_neg hslash, next_blockComment]
      by_cases hstar : c = .char '*'
      · subst hstar
        rfl
      · rw [if_neg (by simp [hstar]), if_neg hstar]
        rfl
  | one q =>
    rw [step, foresee, isPrefixOf_pair]
    by_cases hc : c = q.toChar
    · subst hc
      cases hhead : t.head? == some q.toChar with
      | true =>
        rw [if_pos (by simp), if_pos rfl, foresee, hhead]
        rfl
      | false =>
        rw [if_neg (by simp), if_pos rfl, foresee, hhead, ← foresee_ofQuoted]
        cases q <;> rfl
    · rw [if_neg (by simp [hc]), if_neg hc, foresee_ofQuoted]
  | two q =>
    rw [step, foresee, List.head?_cons]
    by_cases hc : c = q.toChar
    · subst hc
      rw [if_pos (by simp), if_pos rfl]
      rfl
    · rw [if_neg (by simpa using hc), if_neg hc, foresee_ofCode]
  | quoted q => exact (foresee_ofQuoted q c t).symm
  | escaped q => rfl
  | tripled q =>
    rw [step, foresee, next_tripled]
    by_cases hc : c = q.toChar
    · rw [if_pos hc, decide_eq_true hc, Bool.true_and]
      rfl
    · rw [if_neg hc, decide_eq_false hc, Bool.false_and]
      rfl
  | closingOne q =>
    rw [step, foresee, isPrefixOf_pair]
    by_cases hc : c = q.toChar
    · subst hc
      cases hhead : t.head? == some q.toChar with
      | true =>
        rw [if_pos (by simp), if_pos rfl, foresee, hhead]
        rfl
      | false =>
        rw [if_neg (by simp), if_pos rfl, foresee, hhead, next_tripled,
          isPrefixOf_pair_of_head? hhead, Bool.and_false]
        rfl
    · rw [if_neg (by simp [hc]), if_neg hc, next_tripled, decide_eq_false hc, Bool.false_and]
      rfl
  | closingTwo q =>
    rw [step, foresee, List.head?_cons]
    by_cases hc : c = q.toChar
    · subst hc
      rw [if_pos (by simp), if_pos rfl]
      rfl
    · rw [if_neg (by simpa using hc), if_neg hc, next_tripled, decide_eq_false hc, Bool.false_and]
      rfl

/-- A brace counts to the scanner if the automaton is in code. -/
theorem brace?_foresee (r : Reading) (c : CodePoint) (t : Text) :
    (r.foresee (c :: t)).brace? c = if r.inCode then Brace.ofChar? c else none := by
  cases r with
  | code => rfl
  | slash =>
    rw [foresee, List.head?_cons]
    by_cases hslash : c = .char '/'
    · subst hslash
      rfl
    · by_cases hstar : c = .char '*'
      · subst hstar
        rfl
      · rw [if_neg (by simpa using hslash), if_neg (by simpa using hstar)]
        rfl
  | two q =>
    rw [foresee, List.head?_cons]
    by_cases hc : c = q.toChar
    · subst hc
      rw [if_pos (by simp)]
      cases q <;> rfl
    · rw [if_neg (by simpa using hc)]
      rfl
  | lineComment => rfl
  | blockComment => rfl
  | star =>
    rw [foresee]
    split <;> exact brace?_of_ne (by simp [start]) c
  | one q =>
    rw [foresee]
    split <;> exact brace?_of_ne (by simp [start]) c
  | quoted q => rfl
  | escaped q => rfl
  | tripled q => rfl
  | closingOne q =>
    rw [foresee]
    split <;> exact brace?_of_ne (by simp [start]) c
  | closingTwo q =>
    rw [foresee]
    split <;> exact brace?_of_ne (by simp [start]) c

theorem ofChar?_brace_eq_some_iff {b : Brace} : Brace.ofChar? c = some b ↔ c = b.toChar := by
  refine ⟨Brace.eq_toChar, ?_⟩
  rintro rfl
  cases b <;> rfl

theorem mem_scan_cons_iff {s : ScanState} {i j : Nat} {b : Brace} : ⟨j, b⟩ ∈ s.scan i (c :: t) ↔
    (j = i ∧ s.brace? c = some b) ∨ ⟨j, b⟩ ∈ (s.next c t).scan (i + 1) t := by
  rw [scan]
  cases s.brace? c with
  | none => simp
  | some d => simp [eq_comm]

/-- **What the scanner finds** is where the automaton is in code. -/
theorem mem_scan_foresee_iff {i j : Nat} {b : Brace} : ⟨j, b⟩ ∈ (r.foresee t).scan i t ↔
    ∃ k, j = i + k ∧ t[k]? = some b.toChar ∧ (r.run (t.take k)).inCode = true := by
  induction t generalizing r i with
  | nil => simp [scan]
  | cons c t ih =>
    rw [mem_scan_cons_iff, next_foresee, ih, brace?_foresee]
    constructor
    · rintro (⟨rfl, hbrace⟩ | ⟨k, rfl, hget, hcode⟩)
      · split at hbrace
        · next hcode => exact ⟨0, rfl, congrArg some (Brace.eq_toChar hbrace), hcode⟩
        · cases hbrace
      · exact ⟨k + 1, by omega, hget, hcode⟩
    · rintro ⟨k, rfl, hget, hcode⟩
      cases k with
      | zero =>
        refine .inl ⟨rfl, ?_⟩
        rw [if_pos (show r.inCode = true from hcode)]
        exact ofChar?_brace_eq_some_iff.2 (Option.some.inj hget)
      | succ k => exact .inr ⟨k, by omega, hget, hcode⟩

end Reading

/-- From a brace that it finds, the scan finds what it finds from there on. -/
theorem exists_bracesFrom_eq {t : Text} {i k : Nat} {b : Brace} (h : ⟨k, b⟩ ∈ bracesFrom t i) :
    ∃ before, bracesFrom t i = before ++ bracesFrom t k ∧ (bracesFrom t k).head? = some ⟨k, b⟩ := by
  refine ⟨(bracesFrom t i).takeWhile (·.index < k), ?_, ?_⟩
  · rw [bracesFrom_eq_dropWhile h, List.takeWhile_append_dropWhile]
  · rw [bracesFrom_of_getElem? (getElem?_of_mem_bracesFrom h).2, List.head?_cons]

/-- **The scanner is the character automaton**, and it can be started again at every brace that it
finds. -/
theorem bracesFrom_spec (t : Text) (i : Nat) :
    bracesFrom t i = leaps t i ∧
    (bracesFrom t i).Pairwise (·.index < ·.index) ∧
    (∀ k b, ⟨k, b⟩ ∈ bracesFrom t i ↔
      i ≤ k ∧ t[k]? = some b.toChar ∧ (Reading.code.run (slice t i k)).inCode = true) ∧
    ∀ k b, ⟨k, b⟩ ∈ bracesFrom t i →
      ∃ before, bracesFrom t i = before ++ bracesFrom t k ∧
        (bracesFrom t k).head? = some ⟨k, b⟩ := by
  refine ⟨(leaps_eq_bracesFrom t i).symm, pairwise_scan _ _ _, fun k b => ?_,
    fun k b => exists_bracesFrom_eq⟩
  have hiff := @Reading.mem_scan_foresee_iff .code (t.drop i) i k b
  rw [show ⟨k, b⟩ ∈ bracesFrom t i ↔ _ from hiff]
  constructor
  · rintro ⟨n, rfl, hget, hcode⟩
    rw [List.getElem?_drop] at hget
    refine ⟨Nat.le_add_right i n, hget, ?_⟩
    rwa [slice, List.drop_take, Nat.add_sub_cancel_left]
  · rintro ⟨hle, hget, hcode⟩
    refine ⟨k - i, (Nat.add_sub_cancel' hle).symm, ?_, ?_⟩
    · rwa [List.getElem?_drop, Nat.add_sub_cancel' hle]
    · rwa [slice, List.drop_take] at hcode

end Graft
