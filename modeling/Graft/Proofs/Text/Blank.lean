import Graft.Fragment.Template
import Graft.Text.Blank
import Graft.Text.Fill

/-!
# Blanks and the characters that are none

Indentation, blank lines and the ends of lines come and go when a text is edited. What must not
change is the sequence of the other characters, `Text.solids`. Trimming keeps it, and so do cutting
into lines and joining them.
-/

namespace Graft

namespace Text

variable {t : Text} {c : CodePoint}

/-! ## Trimming -/

theorem isBlank_of_isIndent (hc : isIndent c = true) : isBlank c = true := by
  rcases Bool.or_eq_true_iff.1 hc with hc | hc
  · rw [eq_of_beq hc]
    decide
  · rw [eq_of_beq hc]
    decide

theorem isIndent_eq_false (hc : isBlank c = false) : isIndent c = false := by
  refine Bool.eq_false_iff.2 fun h => ?_
  rw [isBlank_of_isIndent h] at hc
  cases hc

theorem ne_of_isBlank {d : CodePoint} (hc : isBlank c = false) (hd : isBlank d = true) : c ≠ d := by
  rintro rfl
  rw [hc] at hd
  cases hd

theorem allBlank_of_isIndent (ht : t.all isIndent = true) : allBlank t = true := by
  rw [allBlank, List.all_eq_true]
  exact fun c hc => isBlank_of_isIndent (List.all_eq_true.1 ht c hc)

theorem not_mem_of_isIndent (hc : isIndent c = false) (ht : t.all isIndent = true) : c ∉ t := by
  intro hmem
  rw [List.all_eq_true.1 ht c hmem] at hc
  cases hc

theorem not_mem_of_allBlank (hc : isBlank c = false) (ht : allBlank t = true) : c ∉ t := by
  intro hmem
  rw [List.all_eq_true.1 ht c hmem] at hc
  cases hc

theorem allBlank_of_lineFeeds (ht : t.all (· == .char '\n') = true) : allBlank t = true := by
  rw [allBlank, List.all_eq_true]
  intro c hc
  rw [eq_of_beq (List.all_eq_true.1 ht c hc)]
  decide

/-- Up to the next bound nothing changes. -/
theorem withinBounds_of_lt_next {bounds : List Nat} {lo next n : Nat}
    (hnext : (bounds.dropWhile (· ≤ lo)).head? = some next) (hlo : lo ≤ n) (hn : n < next) :
    withinBounds bounds n = withinBounds bounds lo := by
  obtain ⟨rest, hrest⟩ := List.head?_eq_some_iff.1 hnext
  have hbelow : ∀ b ∈ bounds.takeWhile (· ≤ lo), decide (b ≤ n) = true := fun b hb =>
    have hb := List.all_eq_true.1 List.all_takeWhile b hb
    decide_eq_true (Nat.le_trans (of_decide_eq_true hb) hlo)
  have hstop : ¬ decide (next ≤ n) = true := by simpa using hn
  have hsplit := List.takeWhile_append_dropWhile (p := (· ≤ lo)) (l := bounds)
  rw [hrest] at hsplit
  have htake : bounds.takeWhile (· ≤ n) = bounds.takeWhile (· ≤ lo) := by
    calc bounds.takeWhile (· ≤ n)
        = (bounds.takeWhile (· ≤ lo) ++ next :: rest).takeWhile (· ≤ n) := by rw [hsplit]
      _ = bounds.takeWhile (· ≤ lo) ++ [] := by
          rw [List.takeWhile_append_of_pos hbelow,
            List.takeWhile_cons_of_neg (p := fun b => decide (b ≤ n)) hstop]
      _ = bounds.takeWhile (· ≤ lo) := List.append_nil _
  rw [withinBounds, withinBounds, htake]

/-- Where the letters and digits of the basic alphabet lie. -/
theorem toNat_of_isAlphanum (h : c.isAlphanum = true) : 48 ≤ c.toNat ∧ c.toNat ≤ 122 := by
  cases c with
  | lone half => cases h
  | char c =>
    have hupper : c.isUpper = true → 65 ≤ c.toNat ∧ c.toNat ≤ 90 := fun h => of_decide_eq_true h
    have hlower : c.isLower = true → 97 ≤ c.toNat ∧ c.toNat ≤ 122 := fun h =>
      (Bool.and_eq_true_iff.1 h).imp of_decide_eq_true of_decide_eq_true
    have hdigit : c.isDigit = true → 48 ≤ c.toNat ∧ c.toNat ≤ 57 := fun h =>
      (Bool.and_eq_true_iff.1 h).imp of_decide_eq_true of_decide_eq_true
    rw [CodePoint.toNat_char]
    rcases Bool.or_eq_true_iff.1 h with h | h
    · rcases Bool.or_eq_true_iff.1 h with h | h
      · have := hupper h
        omega
      · have := hlower h
        omega
    · have := hdigit h
      omega

theorem isBlank_of_isAlphanum (h : c.isAlphanum = true) : isBlank c = false := by
  have hrange := toNat_of_isAlphanum h
  simp only [isBlank, Bool.or_eq_false_iff, Bool.and_eq_false_iff, decide_eq_false_iff_not,
    beq_eq_false_iff_ne]
  omega

/-- No letter and no number is a blank. -/
theorem isAlphanumeric_of_isBlank (hc : isBlank c = true) : isAlphanumeric c = false := by
  by_cases hascii : c.toNat < 0x80
  · rw [isAlphanumeric, if_pos hascii]
    cases h : c.isAlphanum with
    | false => rfl
    | true =>
      rw [isBlank_of_isAlphanum h] at hc
      cases hc
  · simp only [isBlank, Bool.or_eq_true, Bool.and_eq_true, decide_eq_true_eq, beq_iff_eq] at hc
    have hpoints : ∀ n ∈ [0x85, 0xa0, 0x1680, 0x2000, 0x3000],
        withinBounds alphanumericBounds n = false := by decide +kernel
    have hnext : (alphanumericBounds.dropWhile (· ≤ 0x2000)).head? = some 0x2070 := by
      decide +kernel
    rw [isAlphanumeric, if_neg hascii]
    by_cases hspace : 0x2000 ≤ c.toNat ∧ c.toNat < 0x2070
    · rw [withinBounds_of_lt_next hnext hspace.1 hspace.2]
      exact hpoints _ (by simp)
    · apply hpoints
      simp only [List.mem_cons, List.not_mem_nil, or_false]
      omega

theorem isBlank_of_isIdentifierStart (h : isIdentifierStart c = true) : isBlank c = false := by
  rcases Bool.or_eq_true_iff.1 h with h | h
  · exact isBlank_of_isAlphanum (CodePoint.isAlphanum_of_isAlpha h)
  · rw [eq_of_beq h]
    decide

theorem trimRight_cons (hc : isBlank c = false) (t : Text) :
    trimRight (c :: t) = c :: trimRight t := by
  rw [trimRight, trimRight, dropRight, dropRight, List.reverse_cons, List.dropWhile_append]
  split
  · next hnil =>
    rw [List.isEmpty_iff.1 hnil, List.dropWhile_cons_of_neg (by simp [hc])]
    rfl
  · rw [List.reverse_append]
    rfl

/-- Nothing is trimmed off before a character that is no blank. -/
theorem trimRight_append (ht : t.getLast? = some c) (hc : isBlank c = false) (u : Text) :
    trimRight (t ++ u) = t ++ trimRight u := by
  obtain ⟨r, rfl⟩ := List.getLast?_eq_some_iff.1 ht
  rw [trimRight, trimRight, dropRight, dropRight, List.reverse_append, List.reverse_append,
    List.dropWhile_append]
  split
  · next hnil =>
    rw [List.isEmpty_iff.1 hnil]
    simp [hc]
  · simp

/-- Blanks at the end are trimmed off. -/
theorem trimRight_append_blanks {b : Text} (hb : allBlank b = true) (t : Text) :
    trimRight (t ++ b) = trimRight t := by
  rw [trimRight, trimRight, dropRight, dropRight, List.reverse_append,
    List.dropWhile_append_of_pos]
  intro c hc
  exact List.all_eq_true.1 hb c (List.mem_reverse.1 hc)

theorem trimRight_eq_self (ht : t.getLast? = some c) (hc : isBlank c = false) : trimRight t = t := by
  have h := trimRight_append ht hc []
  rw [List.append_nil] at h
  exact h.trans (List.append_nil t)

/-- Texts that end with no blank are the same if they are with blanks behind them. -/
theorem eq_of_append_blanks {u a b : Text} {d : CodePoint} (ht : t.getLast? = some c)
    (hc : isBlank c = false) (hu : u.getLast? = some d) (hd : isBlank d = false)
    (ha : allBlank a = true) (hb : allBlank b = true) (h : t ++ a = u ++ b) : t = u := by
  have htrim := congrArg trimRight h
  rwa [trimRight_append_blanks ha, trimRight_append_blanks hb, trimRight_eq_self ht hc,
    trimRight_eq_self hu hd] at htrim

/-- A trimmed text ends with no blank. -/
theorem isBlank_of_getLast?_trimRight (h : (trimRight t).getLast? = some c) :
    isBlank c = false := by
  rw [trimRight, dropRight, List.getLast?_reverse] at h
  have hnot := List.head?_dropWhile_not (p := isBlank) (l := t.reverse)
  rw [h] at hnot
  simpa using hnot

/-- Trimming takes off indentation, as it takes off every blank. -/
theorem trimLeft_dropWhile_isIndent (t : Text) : trimLeft (t.dropWhile isIndent) = trimLeft t := by
  induction t with
  | nil => rfl
  | cons c r ih =>
    by_cases hc : isIndent c = true
    · rw [List.dropWhile_cons_of_pos hc, ih, trimLeft, trimLeft,
        List.dropWhile_cons_of_pos (isBlank_of_isIndent hc)]
    · rw [List.dropWhile_cons_of_neg hc]

/-- A text is what is left when blanks are trimmed off its end, and those blanks. -/
theorem exists_trimRight_append (t : Text) : ∃ b, t = trimRight t ++ b ∧ allBlank b = true := by
  refine ⟨(t.reverse.takeWhile isBlank).reverse, ?_, ?_⟩
  · rw [trimRight, dropRight, ← List.reverse_append, List.takeWhile_append_dropWhile,
      List.reverse_reverse]
  · rw [allBlank, List.all_reverse]
    exact List.all_takeWhile

/-! ## Characters that are no blanks -/

/-- The characters of a text that are no blanks, in order. -/
def solids (t : Text) : Text :=
  t.filter (!isBlank ·)

@[simp] theorem solids_nil : solids [] = [] := rfl

@[simp] theorem solids_append (t u : Text) : solids (t ++ u) = solids t ++ solids u :=
  List.filter_append ..

theorem solids_cons_blank (hc : isBlank c = true) (t : Text) : solids (c :: t) = solids t :=
  List.filter_cons_of_neg (by simp [hc])

@[simp] theorem solids_lineFeed (t : Text) : solids (.char '\n' :: t) = solids t :=
  solids_cons_blank (by decide) t

theorem solids_eq_nil_iff : solids t = [] ↔ allBlank t = true := by
  rw [solids, List.filter_eq_nil_iff, allBlank, List.all_eq_true]
  simp

/-- Dropping blanks from the start drops no other characters. -/
theorem solids_dropWhile {p : CodePoint → Bool} (hp : ∀ c, p c = true → isBlank c = true)
    (t : Text) : solids (t.dropWhile p) = solids t := by
  induction t with
  | nil => rfl
  | cons c r ih =>
    by_cases hc : p c = true
    · rw [List.dropWhile_cons_of_pos hc, solids_cons_blank (hp c hc), ih]
    · rw [List.dropWhile_cons_of_neg hc]

theorem solids_trimRight (t : Text) : solids (trimRight t) = solids t := by
  have h := solids_dropWhile (fun _ h => h) t.reverse
  unfold solids at h ⊢
  rw [trimRight, dropRight, List.filter_reverse, h, List.filter_reverse, List.reverse_reverse]

/-- No character is lost when a text is cut into lines, line breaks apart. -/
theorem solids_flatten_lines (t : Text) : solids (lines t).flatten = solids t := by
  fun_induction lines t with
  | case1 => rfl
  | case2 r ih =>
    rw [List.flatten_cons, List.nil_append, ih, solids_cons_blank (by decide), solids_lineFeed]
  | case3 c r _ hbreak ih =>
    rw [List.flatten_cons, List.nil_append, ih, solids_cons_blank (isBlank_of_isLineBreak hbreak)]
  | case4 c r _ hbreak hnil ih =>
    rw [hnil] at ih
    show solids [c] = solids ([c] ++ r)
    rw [solids_append, ← ih, List.flatten_nil, solids_nil, List.append_nil]
  | case5 c r _ hbreak l ls hls ih =>
    rw [hls, List.flatten_cons] at ih
    show solids ([c] ++ l ++ ls.flatten) = solids ([c] ++ r)
    rw [List.append_assoc, solids_append, ih, ← solids_append]

theorem solids_join_lineFeed (ts : List Text) :
    solids (join [.char '\n'] ts) = solids ts.flatten := by
  fun_induction join [.char '\n'] ts with
  | case1 => rfl
  | case2 t => rw [List.flatten_cons, List.flatten_nil, List.append_nil]
  | case3 t ts hts ih =>
    rw [List.flatten_cons, solids_append, solids_append, ih, solids_lineFeed, solids_nil,
      List.append_nil, solids_append]

end Text

end Graft
