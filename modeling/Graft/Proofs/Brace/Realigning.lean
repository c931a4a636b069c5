import Graft.Proofs.Brace.Reading
import Graft.Proofs.Text.Lines

/-!
# Lines that are realigned

Indenting the lines of a text changes the blanks at the start of lines and nothing else
(`Realigned`). The scanner takes no notice: a line feed is never passed over unread, so that the
blanks behind it are read in a comment, in a string or in code, where blanks mean nothing, and no
character that is looked ahead for comes in between two others.

> `Realigned.reads`: a realigned text is read as the old one.
> `reads_of_closeOf`: what stands between a brace and its partner is read from code to code, and its
> braces pair up.
-/

namespace Graft

/-- Blanks within a line. -/
def Text.IsMargin (t : Text) : Prop :=
  ∀ c ∈ t, Text.isBlank c = true ∧ c ≠ .char '\n'

/-- Texts that differ in the blanks at the start of lines, the first line apart. -/
inductive Realigned : Text → Text → Prop
  | nil : Realigned [] []
  | char {c : CodePoint} {t u : Text} (hc : c ≠ .char '\n') (h : Realigned t u) :
    Realigned (c :: t) (c :: u)
  | line {b b' t u : Text} (hb : b.IsMargin) (hb' : b'.IsMargin) (h : Realigned t u) :
      Realigned (.char '\n' :: (b ++ t)) (.char '\n' :: (b' ++ u))

namespace Realigned

variable {t u v rest : Text} {c : CodePoint}

theorem append_left (h : Realigned t u) (v : Text) : Realigned (v ++ t) (v ++ u) := by
  induction v with
  | nil => exact h
  | cons c r ih =>
    by_cases hc : c = .char '\n'
    · subst hc
      have hnone : Text.IsMargin [] := fun c hc => by cases hc
      exact line (t := r ++ t) (u := r ++ u) hnone hnone ih
    · exact .char hc ih

theorem refl (t : Text) : Realigned t t := by
  have h := nil.append_left t
  rwa [List.append_nil] at h

theorem head?_eq (h : Realigned t u) (rest : Text) : (t ++ rest).head? = (u ++ rest).head? := by
  cases h with
  | nil => rfl
  | char hc h => rfl
  | line hb hb' h => rfl

/-- A quote is followed by two more in both texts or in none. -/
theorem isPrefixOf_eq {q : CodePoint} (hq : ScanState.isQuote q = true) (h : Realigned t u)
    (rest : Text) : [q, q].isPrefixOf (t ++ rest) = [q, q].isPrefixOf (u ++ rest) := by
  have hone : ∀ r r' : Text, r.head? = r'.head? → [q].isPrefixOf r = [q].isPrefixOf r' := by
    intro r r' hhead
    cases r with
    | nil =>
      cases r' with
      | nil => rfl
      | cons d r' => cases hhead
    | cons d r =>
      cases r' with
      | nil => cases hhead
      | cons d' r' =>
        cases hhead
        rfl
  cases h with
  | nil => rfl
  | @char c t u hc h =>
    show (q == c && [q].isPrefixOf (t ++ rest)) = (q == c && [q].isPrefixOf (u ++ rest))
    rw [hone _ _ (h.head?_eq rest)]
  | line hb hb' h =>
    have hne : (q == .char '\n') = false := by
      rw [beq_eq_false_iff_ne]
      rintro rfl
      cases hq
    rw [List.cons_append, List.cons_append, List.isPrefixOf, List.isPrefixOf, hne]
    rfl

/-- The first line stays as it is. -/
theorem of_append (hp : .char '\n' ∉ v) (h : Realigned (v ++ t) u) :
    ∃ u', u = v ++ u' ∧ Realigned t u' := by
  induction v generalizing u with
  | nil => exact ⟨u, rfl, h⟩
  | cons c r ih =>
    rw [List.mem_cons, not_or] at hp
    generalize hw : c :: r ++ t = w at h
    cases h with
    | nil => cases hw
    | char hc h =>
      obtain ⟨rfl, rfl⟩ := List.cons.inj hw
      obtain ⟨u', rfl, hrest⟩ := ih hp.2 h
      exact ⟨u', rfl, hrest⟩
    | line => exact absurd (List.cons.inj hw).1.symm hp.1

/-- The last character stays if it is no blank. -/
theorem exists_concat (h : Realigned v u) (hv : v = t ++ [c]) (hc : Text.isBlank c = false) :
    ∃ u', u = u' ++ [c] ∧ Realigned t u' := by
  induction h generalizing t with
  | nil => simp at hv
  | @char d r r' hd h ih =>
    cases t with
    | nil =>
      obtain ⟨rfl, rfl⟩ := List.cons.inj hv
      cases h
      exact ⟨[], rfl, nil⟩
    | cons e t =>
      obtain ⟨rfl, hr⟩ := List.cons.inj hv
      obtain ⟨u', rfl, hrest⟩ := ih hr
      exact ⟨d :: u', rfl, .char hd hrest⟩
  | @line b b' r r' hb hb' h ih =>
    rcases List.eq_nil_or_concat r with rfl | ⟨r₀, d, rfl⟩
    · -- then the last character is one of the blanks
      have hmem : c ∈ .char '\n' :: (b ++ []) := by
        rw [hv]
        simp
      rw [List.append_nil] at hmem
      rcases List.mem_cons.1 hmem with rfl | hmem
      · cases hc
      · rw [(hb c hmem).1] at hc
        cases hc
    · have hsplit : .char '\n' :: (b ++ r₀.concat d) = (.char '\n' :: (b ++ r₀)) ++ [d] := by simp
      rw [hsplit] at hv
      obtain ⟨rfl, hd⟩ := List.append_inj' hv rfl
      obtain rfl : d = c := by simpa using hd
      obtain ⟨u', rfl, hrest⟩ := ih (List.concat_eq_append ..)
      refine ⟨.char '\n' :: (b' ++ u'), ?_, .line hb hb' hrest⟩
      rw [List.cons_append, List.append_assoc]

end Realigned

/-! ## Reading realigned lines -/

namespace ScanState

variable {s : ScanState} {t u rest : Text} {c : CodePoint}

/-- Strings are between quotes, and a line feed is passed over only behind a backslash. -/
structure Steady (s : ScanState) (t : Text) : Prop where
  quotes : ∀ q, s.mode = .quoted q ∨ s.mode = .tripled q → isQuote q = true
  lineFeed : .char '\n' ∈ t.take s.skip → ∃ q, s = ⟨.quoted q, 1⟩

theorem steady_of_skip (hquotes : ∀ q, s.mode = .quoted q ∨ s.mode = .tripled q → isQuote q = true)
    (hskip : s.skip = 0) (t : Text) : Steady s t where
  quotes := hquotes
  lineFeed := by
    rw [hskip]
    intro h
    cases h

theorem steady_start (t : Text) : Steady start t :=
  steady_of_skip (by simp [start]) rfl t

theorem Steady.next (h : Steady s (c :: t)) : Steady (s.next c t) t := by
  have hahead : ∀ d, d ≠ .char '\n' → (t.head? == some d) = true → .char '\n' ∉ t.take 1 := by
    intro d hd hhead hmem
    cases t with
    | nil => cases hmem
    | cons e t =>
      cases eq_of_beq hhead
      simp [Ne.symm hd] at hmem
  have htriple : ∀ q, isQuote q = true → [q, q].isPrefixOf t = true → .char '\n' ∉ t.take 2 := by
    intro q hq hfront hmem
    obtain ⟨r, rfl⟩ := List.isPrefixOf_iff_prefix.1 hfront
    have heq : .char '\n' = q := by simpa using hmem
    subst heq
    cases hq
  obtain ⟨mode, skip⟩ := s
  cases skip with
  | succ skip =>
    refine ⟨h.quotes, fun hmem => ?_⟩
    -- what is still passed over was to be passed over before
    obtain ⟨q, hq⟩ := h.lineFeed (List.mem_cons_of_mem c hmem)
    cases hq
    cases hmem
  | zero =>
    cases mode with
    | code =>
      unfold ScanState.next
      dsimp only
      split
      · next hcond =>
        exact ⟨by simp, fun hmem =>
          absurd hmem (hahead _ (by decide) (Bool.and_eq_true_iff.1 hcond).2)⟩
      · split
        · next hcond =>
          exact ⟨by simp, fun hmem =>
            absurd hmem (hahead _ (by decide) (Bool.and_eq_true_iff.1 hcond).2)⟩
        · split
          · next hq =>
            split
            · next hfront =>
              exact ⟨by rintro q (hmode | hmode) <;> cases hmode; exact hq,
                fun hmem => absurd hmem (htriple c hq hfront)⟩
            · exact steady_of_skip (by rintro q (hmode | hmode) <;> cases hmode; exact hq) rfl t
          · exact steady_start t
    | lineComment =>
      unfold ScanState.next
      dsimp only
      split
      · exact steady_start t
      · exact steady_of_skip (by simp) rfl t
    | blockComment =>
      unfold ScanState.next
      dsimp only
      split
      · next hcond =>
        exact ⟨by simp, fun hmem =>
          absurd hmem (hahead _ (by decide) (Bool.and_eq_true_iff.1 hcond).2)⟩
      · exact steady_of_skip (by simp) rfl t
    | quoted quote =>
      unfold ScanState.next
      dsimp only
      split
      · exact ⟨h.quotes, fun _ => ⟨quote, rfl⟩⟩
      · split
        · exact steady_start t
        · exact steady_of_skip h.quotes rfl t
    | tripled quote =>
      unfold ScanState.next
      dsimp only
      split
      · next hcond =>
        exact ⟨by simp, fun hmem =>
          absurd hmem (htriple quote (h.quotes quote (.inr rfl)) (Bool.and_eq_true_iff.1 hcond).2)⟩
      · exact steady_of_skip h.quotes rfl t

/-- Behind a line feed nothing is passed over, and what stands there has no part in it. -/
theorem Steady.next_lineFeed (h : Steady s (.char '\n' :: t)) (rest : Text) :
    (s.next (.char '\n') rest).skip = 0 ∧ s.next (.char '\n') rest = s.next (.char '\n') t := by
  obtain ⟨mode, skip⟩ := s
  cases skip with
  | succ skip =>
    obtain ⟨q, hq⟩ := h.lineFeed List.mem_cons_self
    cases hq
    exact ⟨rfl, rfl⟩
  | zero =>
    cases mode with
    | code => exact ⟨rfl, rfl⟩
    | lineComment => exact ⟨rfl, rfl⟩
    | blockComment => exact ⟨rfl, rfl⟩
    | quoted quote =>
      have hend : ∀ r, ScanState.next ⟨.quoted quote, 0⟩ (.char '\n') r = start := by
        intro r
        simp [ScanState.next, start]
      rw [hend, hend]
      exact ⟨rfl, rfl⟩
    | tripled quote =>
      have hne : CodePoint.char '\n' ≠ quote := by
        rintro rfl
        have hquote := h.quotes (.char '\n') (.inr rfl)
        cases hquote
      have hstay : ∀ r, ScanState.next ⟨.tripled quote, 0⟩ (.char '\n') r =
          ⟨.tripled quote, 0⟩ := by
        intro r
        simp [ScanState.next, hne]
      rw [hstay, hstay]
      exact ⟨rfl, rfl⟩

/-- A blank within a line means nothing unless it is passed over. -/
theorem Steady.next_blank (h : Steady s t) (hskip : s.skip = 0) (hc : Text.isBlank c = true)
    (hfeed : c ≠ .char '\n') : s.brace? c = none ∧ ∀ rest, s.next c rest = s := by
  have hne : ∀ d, Text.isBlank d = false → c ≠ d := by
    rintro d hd rfl
    rw [hc] at hd
    cases hd
  have hquote : ∀ q, isQuote q = true → c ≠ q := by
    intro q hq
    rcases Bool.or_eq_true_iff.1 hq with hq | hq
    · exact eq_of_beq hq ▸ hne _ (by decide)
    · exact eq_of_beq hq ▸ hne _ (by decide)
  have hmodes : s.mode ≠ .code → s.brace? c = none := by
    intro hmode
    rw [brace?, if_neg fun heq => hmode (by rw [heq]; rfl)]
  obtain ⟨mode, skip⟩ := s
  obtain rfl : skip = 0 := hskip
  cases mode with
  | code => exact start_of_isBlank hc
  | lineComment =>
    exact ⟨hmodes (by simp), fun rest => by simp [ScanState.next, hfeed]⟩
  | blockComment =>
    exact ⟨hmodes (by simp), fun rest => by simp [ScanState.next, hne (.char '*') (by decide)]⟩
  | quoted quote =>
    have hq := hquote quote (h.quotes quote (.inl rfl))
    exact ⟨hmodes (by simp),
      fun rest => by simp [ScanState.next, hne (.char '\\') (by decide), hq, hfeed]⟩
  | tripled quote =>
    have hq := hquote quote (h.quotes quote (.inr rfl))
    exact ⟨hmodes (by simp), fun rest => by simp [ScanState.next, hq]⟩

theorem Steady.pass (h : Steady s t) (hskip : s.skip = 0) {b : Text} (hb : b.IsMargin)
    (u rest : Text) :
    s.kinds (b ++ u) rest = s.kinds u rest ∧ s.after (b ++ u) rest = s.after u rest := by
  induction b with
  | nil => exact ⟨rfl, rfl⟩
  | cons c r ih =>
    obtain ⟨hblank, hfeed⟩ := hb c List.mem_cons_self
    obtain ⟨hnone, hnext⟩ := h.next_blank hskip hblank hfeed
    obtain ⟨hkinds, hafter⟩ := ih fun d hd => hb d (List.mem_cons_of_mem c hd)
    rw [List.cons_append, kinds, after, hnone, hnext]
    exact ⟨hkinds, hafter⟩

end ScanState

open ScanState

/-- A character means the same before realigned texts. -/
theorem Realigned.next_eq {s : ScanState} {t u : Text} {c : CodePoint} (h : Realigned t u)
    (hquotes : ∀ q, s.mode = .quoted q ∨ s.mode = .tripled q → isQuote q = true) (rest : Text) :
    s.next c (t ++ rest) = s.next c (u ++ rest) := by
  unfold ScanState.next
  rw [h.head?_eq rest]
  split
  · rfl
  · split
    · by_cases hq : isQuote c = true
      · rw [h.isPrefixOf_eq hq]
      · rw [if_neg hq, if_neg hq]
    · rfl
    · rfl
    · rfl
    · next quote hmode => rw [h.isPrefixOf_eq (hquotes quote (.inr hmode))]

/-- **A realigned text is read as the old one.** -/
theorem Realigned.kinds_after {s : ScanState} {t u : Text} (h : Realigned t u) (rest : Text)
    (hs : Steady s (t ++ rest)) :
    s.kinds t rest = s.kinds u rest ∧ s.after t rest = s.after u rest := by
  induction h generalizing s with
  | nil => exact ⟨rfl, rfl⟩
  | @char c t u hc h ih =>
    have hs : Steady s (c :: (t ++ rest)) := hs
    obtain ⟨hkinds, hafter⟩ := ih hs.next
    rw [ScanState.kinds, ScanState.kinds, ScanState.after, ScanState.after,
      ← h.next_eq hs.quotes rest, hkinds, hafter]
    exact ⟨rfl, rfl⟩
  | @line b b' t u hb hb' h ih =>
    -- the line feed leads to one state in both texts, in which the blanks are passed over
    have hs : Steady s (.char '\n' :: (b ++ t ++ rest)) := hs
    obtain ⟨hskip, -⟩ := hs.next_lineFeed (b ++ t ++ rest)
    have hnext := (hs.next_lineFeed (b' ++ u ++ rest)).2
    have hsteady := hs.next
    rw [ScanState.kinds, ScanState.kinds, ScanState.after, ScanState.after, hnext]
    generalize s.next (.char '\n') (b ++ t ++ rest) = s' at hskip hsteady
    obtain ⟨hkinds, hafter⟩ := hsteady.pass hskip hb t rest
    obtain ⟨hkinds', hafter'⟩ := hsteady.pass hskip hb' u rest
    obtain ⟨hkindsRest, hafterRest⟩ := ih (steady_of_skip hsteady.quotes hskip _)
    rw [hkinds, hafter, hkinds', hafter', hkindsRest, hafterRest]
    exact ⟨rfl, rfl⟩

/-- What a realigned part comes to from code is what the old part did. -/
theorem Realigned.reads {t u : Text} {bs : List Brace} {s' : ScanState} (h : Realigned t u)
    (ht : start.Reads t bs s') : start.Reads u bs s' where
  kinds := by
    intro rest hrest
    rw [← (h.kinds_after rest (steady_start _)).1, ht.kinds rest hrest]
  after := by
    intro rest hrest
    rw [← (h.kinds_after rest (steady_start _)).2, ht.after rest hrest]

/-! ## Indented lines -/

/-- A line with a margin, unless it is blank; then it is empty. -/
def Text.indentLine (margin line : Text) : Text :=
  if allBlank line then [] else margin ++ line

theorem Text.join_append_cons (sep a line : Text) (lines : List Text) :
    join sep ((a ++ line) :: lines) = a ++ join sep (line :: lines) := by
  cases lines with
  | nil => rfl
  | cons next lines =>
    rw [join_cons (List.cons_ne_nil _ _), join_cons (List.cons_ne_nil _ _), List.append_assoc]

/-- Indenting all lines but the first realigns them. -/
theorem realigned_join {margin : Text} {lines : List Text} (hmargin : margin.IsMargin)
    (hlines : ∀ l ∈ lines, .char '\n' ∉ l) (line : Text) :
    Realigned (Text.join [.char '\n'] (line :: lines))
      (Text.join [.char '\n'] (line :: lines.map (Text.indentLine margin))) := by
  have hnone : Text.IsMargin [] := fun c hc => by cases hc
  induction lines generalizing line with
  | nil => exact .refl line
  | cons next lines ih =>
    obtain ⟨hnext, hlines⟩ := List.forall_mem_cons.1 hlines
    rw [List.map_cons, Text.join_cons (List.cons_ne_nil _ _), Text.join_cons (List.cons_ne_nil _ _)]
    apply Realigned.append_left
    unfold Text.indentLine
    split
    · next hblank =>
      -- a blank line is blanks before the rest of an empty one
      have hblanks : next.IsMargin := fun c hc =>
        ⟨List.all_eq_true.1 hblank c hc, fun heq => hnext (heq ▸ hc)⟩
      have h := Realigned.line hblanks hnone (ih hlines [])
      rwa [← Text.join_append_cons, List.append_nil] at h
    · rw [Text.join_append_cons]
      have h := Realigned.line hnone hmargin (ih hlines next)
      rwa [List.nil_append] at h

/-! ## What a block encloses -/

/-- The brace that brings the depth back to zero is one of those that the scan finds. -/
theorem le_of_closeAfter_scan {s : ScanState} {n i j : Nat} {t : Text}
    (h : closeAfter n (s.scan i t) = some j) : i ≤ j :=
  (getElem?_of_mem_scan (mem_of_closeAfter h)).1

/-- What precedes the brace that brings the depth back to zero leads to code, and down to one level
above zero. -/
theorem reads_of_closeAfter {s : ScanState} {n i : Nat} {x rest : Text}
    (h : closeAfter (n + 1) (s.scan i (x ++ rest)) = some (i + x.length)) :
    s.after x rest = start ∧ level n (s.kinds x rest) = some 0 := by
  induction x generalizing s n i with
  | nil =>
    -- the first brace that is found is the one at this index
    have hlater : ∀ {m s' r}, closeAfter m (ScanState.scan s' (i + 1) r) ≠ some i := by
      intro m s' r hr
      have := le_of_closeAfter_scan hr
      omega
    cases rest with
    | nil => cases h
    | cons c r =>
      rw [List.nil_append, scan] at h
      split at h
      · next b hb =>
        cases b with
        | opening => exact absurd h hlater
        | closing =>
          rw [closeAfter] at h
          split at h
          · next hn =>
            obtain rfl : n = 0 := by omega
            refine ⟨?_, rfl⟩
            unfold brace? at hb
            split at hb
            · next hs => exact hs
            · cases hb
          · exact absurd h hlater
      · exact absurd h hlater
  | cons c r ih =>
    have hindex : i + (c :: r).length = i + 1 + r.length := by
      rw [List.length_cons]
      omega
    rw [List.cons_append, scan, hindex] at h
    rw [ScanState.after, ScanState.kinds]
    split at h
    · next b hb =>
      rw [hb]
      cases b with
      | opening => exact ih h
      | closing =>
        rw [closeAfter] at h
        split at h
        · have : i = i + 1 + r.length := Option.some.inj h
          omega
        · cases n with
          | zero => omega
          | succ n => exact ih h
    · next hb =>
      rw [hb]
      exact ih h

/-- **What stands between a brace and its partner** is read from code to code, and its braces pair
up. -/
theorem reads_of_closeOf {t x rest : Text} {i : Nat}
    (ht : t.drop i = .char '{' :: (x ++ .char '}' :: rest))
    (h : closeOf t i = .ok (i + 1 + x.length)) :
    ∃ bs, start.Reads x bs start ∧ level 0 bs = some 0 := by
  have hinert : Inert (.char '}' :: rest) := inert_cons (by decide) _
  have hbraces : bracesFrom t i =
      ⟨i, .opening⟩ :: start.scan (i + 1) (x ++ .char '}' :: rest) := by
    rw [bracesFrom, ht]
    rfl
  have hclose : closeAfter 1 (start.scan (i + 1) (x ++ .char '}' :: rest)) =
      some (i + 1 + x.length) := by
    unfold closeOf at h
    rw [Int.toNat_natCast] at h
    split at h
    · split at h
      · next close hclose =>
        cases h
        rw [hbraces, closeAfter] at hclose
        exact hclose
      · cases h
    · cases h
  obtain ⟨hafter, hlevel⟩ := reads_of_closeAfter hclose
  have hreads := reads_of_alone isProper_start x
  rw [← kinds_congr isProper_start hinert inert_nil, ← after_congr isProper_start hinert inert_nil,
    hafter] at hreads
  exact ⟨_, hreads, hlevel⟩

end Graft
