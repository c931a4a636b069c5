import Graft.Proofs.Brace.Scan
import Graft.Proofs.Text.Blank

/-!
# Reading a text in parts

What a character means to the scanner depends on the state that the text before it leads to, and on
the next two characters at most. So a text can be read in parts, each with the next one in view
(`kinds_append`, `after_append`). What follows a part does not matter unless it starts with a slash,
an asterisk or a quote (`Inert`), as these are the only characters that are looked ahead for.

> `Reads`: what reading a part comes to, whatever inert text follows. Parts are put together with
> `Reads.append`.
> `balance_eq_ok_iff`: a text is balanced when the braces met bring the level back to zero.
-/

namespace Graft

namespace ScanState

variable {s s' s'' : ScanState} {t u rest rest' : Text} {c q : CodePoint} {bs cs : List Brace}

/-- The state after `t` when `rest` follows it. -/
def after (s : ScanState) : Text → Text → ScanState
  | [], _ => s
  | c :: r, rest => after (s.next c (r ++ rest)) r rest

/-- The braces met in `t` when `rest` follows it. -/
def kinds (s : ScanState) : Text → Text → List Brace
  | [], _ => []
  | c :: r, rest => (s.brace? c).toList ++ kinds (s.next c (r ++ rest)) r rest

theorem after_append (s : ScanState) (t u rest : Text) :
    s.after (t ++ u) rest = (s.after t (u ++ rest)).after u rest := by
  induction t generalizing s with
  | nil => rfl
  | cons c r ih =>
    show (s.next c (r ++ u ++ rest)).after (r ++ u) rest = _
    rw [ih, List.append_assoc]
    rfl

theorem kinds_append (s : ScanState) (t u rest : Text) : s.kinds (t ++ u) rest =
    s.kinds t (u ++ rest) ++ (s.after t (u ++ rest)).kinds u rest := by
  induction t generalizing s with
  | nil => rfl
  | cons c r ih =>
    show (s.brace? c).toList ++ (s.next c (r ++ u ++ rest)).kinds (r ++ u) rest = _
    rw [ih, List.append_assoc r u rest, ← List.append_assoc]
    rfl

/-- A scan goes on behind a part in the state that the part leads to. -/
theorem scan_append (s : ScanState) (i : Nat) (t rest : Text) :
    ∃ found, s.scan i (t ++ rest) = found ++ (s.after t rest).scan (i + t.length) rest ∧
      found.map (·.brace) = s.kinds t rest := by
  induction t generalizing s i with
  | nil => exact ⟨[], rfl, rfl⟩
  | cons c r ih =>
    obtain ⟨found, hscan, hkinds⟩ := ih (s.next c (r ++ rest)) (i + 1)
    rw [show i + 1 + r.length = i + (c :: r).length by rw [List.length_cons]; omega] at hscan
    cases hb : s.brace? c with
    | none =>
      refine ⟨found, ?_, ?_⟩
      · rw [List.cons_append, scan, hb]
        exact hscan
      · rw [hkinds, kinds, hb]
        rfl
    | some b =>
      refine ⟨⟨i, b⟩ :: found, ?_, ?_⟩
      · rw [List.cons_append, scan, hb]
        dsimp only
        rw [hscan]
        rfl
      · rw [List.map_cons, hkinds, kinds, hb]
        rfl

theorem map_brace_scan (s : ScanState) (i : Nat) (t : Text) :
    (s.scan i t).map (·.brace) = s.kinds t [] := by
  obtain ⟨found, hscan, hkinds⟩ := s.scan_append i t []
  rw [List.append_nil] at hscan
  rw [hscan, List.map_append, hkinds]
  exact List.append_nil _

/-- Where a brace is found, the scanner is in code. -/
theorem after_of_mem_scan {i j : Nat} {b : Brace} (h : ⟨j, b⟩ ∈ s.scan i t) :
    s.after (t.take (j - i)) (t.drop (j - i)) = start := by
  induction t generalizing s i with
  | nil => cases h
  | cons c r ih =>
    have hrest : ⟨j, b⟩ ∈ (s.next c r).scan (i + 1) r →
        s.after ((c :: r).take (j - i)) ((c :: r).drop (j - i)) = start := by
      intro hmem
      obtain ⟨hle, -⟩ := getElem?_of_mem_scan hmem
      rw [show j - i = j - (i + 1) + 1 by omega, List.take_succ_cons, List.drop_succ_cons, after,
        List.take_append_drop]
      exact ih hmem
    unfold scan at h
    split at h
    · next b' hb' =>
      rcases List.mem_cons.1 h with heq | hmem
      · cases heq
        rw [Nat.sub_self]
        unfold brace? at hb'
        split at hb'
        · next hs => exact hs
        · cases hb'
      · exact hrest hmem
    · exact hrest h

/-- Where there is no brace, none is met. -/
theorem kinds_eq_nil (hopening : .char '{' ∉ t) (hclosing : .char '}' ∉ t) (s : ScanState)
    (rest : Text) :
    s.kinds t rest = [] := by
  induction t generalizing s with
  | nil => rfl
  | cons c r ih =>
    rw [List.mem_cons, not_or] at hopening hclosing
    have hnone : s.brace? c = none := by
      have hchar : Brace.ofChar? c = none := by
        rw [Brace.ofChar?, if_neg fun h : c = .char '{' => hopening.1 h.symm,
          if_neg fun h : c = .char '}' => hclosing.1 h.symm]
      rw [brace?, hchar, ite_self]
    rw [kinds, ih hopening.2 hclosing.2, hnone]
    rfl

/-! ## What follows -/

/-- Whether the scanner looks ahead for a character. -/
def isSought (c : CodePoint) : Bool :=
  c == .char '/' || c == .char '*' || isQuote c

/-- Texts that do not start with a character that is looked ahead for. -/
def Inert (t : Text) : Prop :=
  ∀ c, t.head? = some c → isSought c = false

theorem inert_nil : Inert [] := by
  intro c hc
  cases hc

theorem inert_cons (hc : isSought c = false) (t : Text) : Inert (c :: t) := by
  intro d hd
  cases hd
  exact hc

theorem Inert.append (ht : Inert t) (hu : Inert u) : Inert (t ++ u) := by
  cases t with
  | nil => exact hu
  | cons c r => exact inert_cons (ht c rfl) _

theorem Inert.of_append (h : Inert (t ++ u)) : Inert t := by
  cases t with
  | nil => exact inert_nil
  | cons c r => exact inert_cons (h c rfl) r

/-- A string between three marks is one between three quotes. -/
def IsProper (s : ScanState) : Prop :=
  ∀ q, s.mode = .tripled q → isQuote q = true

theorem isProper_start : IsProper start := by
  intro q hq
  cases hq

theorem IsProper.next (h : IsProper s) (c : CodePoint) (rest : Text) :
    IsProper (s.next c rest) := by
  intro q hq
  unfold ScanState.next at hq
  split at hq
  · exact h q hq
  · split at hq
    · split at hq
      · cases hq
      · split at hq
        · cases hq
        · split at hq
          · next hquote =>
            split at hq
            · cases hq
              exact hquote
            · cases hq
          · cases hq
    · split at hq <;> cases hq
    · split at hq <;> cases hq
    · split at hq
      · cases hq
      · split at hq <;> cases hq
    · next quote hmode =>
      split at hq
      · cases hq
      · cases hq
        exact h _ hmode

theorem IsProper.after (h : IsProper s) (t rest : Text) : IsProper (s.after t rest) := by
  induction t generalizing s with
  | nil => exact h
  | cons c r ih => exact ih (h.next c _)

/-- Texts that are inert start alike as far as anyone looks. -/
theorem head?_congr (h : Inert rest) (h' : Inert rest') (hc : isSought c = true) (t : Text) :
    ((t ++ rest).head? == some c) = ((t ++ rest').head? == some c) := by
  cases t with
  | nil =>
    have hne : ∀ u : Text, Inert u → (u.head? == some c) = false := by
      intro u hu
      rw [beq_eq_false_iff_ne]
      intro heq
      rw [hu c heq] at hc
      cases hc
    rw [List.nil_append, List.nil_append, hne rest h, hne rest' h']
  | cons d r => rfl

theorem isPrefixOf_congr (h : Inert rest) (h' : Inert rest') (hq : isQuote q = true) (t : Text) :
    [q, q].isPrefixOf (t ++ rest) = [q, q].isPrefixOf (t ++ rest') := by
  have hsought : isSought q = true := by rw [isSought, hq, Bool.or_true]
  have hne : ∀ u : Text, Inert u → ∀ p, (q :: p).isPrefixOf u = false := by
    intro u hu p
    cases u with
    | nil => rfl
    | cons d r =>
      have hd : q ≠ d := by
        rintro rfl
        rw [hu q rfl] at hsought
        cases hsought
      rw [List.isPrefixOf, beq_eq_false_iff_ne.2 hd, Bool.false_and]
  match t with
  | [] => rw [List.nil_append, List.nil_append, hne rest h, hne rest' h']
  | [d] =>
    show (q == d && [q].isPrefixOf rest) = (q == d && [q].isPrefixOf rest')
    rw [hne rest h, hne rest' h']
  | d :: e :: r => rfl

theorem next_congr (hs : IsProper s) (h : Inert rest) (h' : Inert rest')
    (c : CodePoint) (t : Text) :
    s.next c (t ++ rest) = s.next c (t ++ rest') := by
  unfold next
  split
  · rfl
  · split
    · rw [head?_congr h h' (by decide), head?_congr h h' (by decide)]
      by_cases hq : isQuote c = true
      · rw [isPrefixOf_congr h h' hq]
      · rw [if_neg hq, if_neg hq]
    · rfl
    · rw [head?_congr h h' (by decide)]
    · rfl
    · next quote hmode => rw [isPrefixOf_congr h h' (hs quote hmode)]

theorem after_congr (hs : IsProper s) (h : Inert rest) (h' : Inert rest') (t : Text) :
    s.after t rest = s.after t rest' := by
  induction t generalizing s with
  | nil => rfl
  | cons c r ih =>
    rw [after, after, next_congr hs h h' c r]
    exact ih (hs.next c _)

theorem kinds_congr (hs : IsProper s) (h : Inert rest) (h' : Inert rest') (t : Text) :
    s.kinds t rest = s.kinds t rest' := by
  induction t generalizing s with
  | nil => rfl
  | cons c r ih =>
    rw [kinds, kinds, next_congr hs h h' c r, ih (hs.next c _)]

/-! ## Parts -/

/-- What reading a part from a state comes to, whatever inert text follows. -/
structure Reads (s : ScanState) (t : Text) (bs : List Brace) (s' : ScanState) : Prop where
  kinds : ∀ rest, Inert rest → s.kinds t rest = bs
  after : ∀ rest, Inert rest → s.after t rest = s'

/-- A part that is read with nothing behind it is read in the same way before inert text. -/
theorem reads_of_alone (hs : IsProper s) (t : Text) : Reads s t (s.kinds t []) (s.after t []) :=
  ⟨fun _ h => kinds_congr hs h inert_nil t, fun _ h => after_congr hs h inert_nil t⟩

theorem Reads.append (ht : Reads s t bs s') (hu : Reads s' u cs s'') (hinert : Inert u) :
    Reads s (t ++ u) (bs ++ cs) s'' := by
  refine ⟨?_, ?_⟩
  · intro rest hrest
    have h := hinert.append hrest
    rw [kinds_append, ht.kinds _ h, ht.after _ h, hu.kinds _ hrest]
  · intro rest hrest
    rw [after_append, ht.after _ (hinert.append hrest), hu.after _ hrest]

/-- Characters that neither are braces nor change the state are passed over, whatever follows. -/
theorem Reads.pass (h : ∀ c ∈ u, s.brace? c = none ∧ ∀ rest, s.next c rest = s)
    (ht : Reads s t bs s') : Reads s (u ++ t) bs s' := by
  induction u with
  | nil => exact ht
  | cons c r ih =>
    obtain ⟨hnone, hnext⟩ := h c List.mem_cons_self
    have hr := ih fun d hd => h d (List.mem_cons_of_mem c hd)
    refine ⟨?_, ?_⟩
    · intro rest hrest
      rw [List.cons_append, ScanState.kinds, hnone, hnext]
      exact hr.kinds rest hrest
    · intro rest hrest
      rw [List.cons_append, ScanState.after, hnext]
      exact hr.after rest hrest

/-- Blanks mean nothing in code. -/
theorem start_of_isBlank (hc : Text.isBlank c = true) :
    start.brace? c = none ∧ ∀ rest, start.next c rest = start := by
  have hne : ∀ d, Text.isBlank d = false → c ≠ d := by
    rintro d hd rfl
    rw [hc] at hd
    cases hd
  have hquote : isQuote c = false := by
    rw [isQuote, beq_eq_false_iff_ne.2 (hne _ (by decide)),
      beq_eq_false_iff_ne.2 (hne _ (by decide))]
    rfl
  have hslash : decide (c = .char '/') = false := decide_eq_false (hne _ (by decide))
  refine ⟨?_, ?_⟩
  · rw [brace?, if_pos rfl, Brace.ofChar?, if_neg (hne _ (by decide)), if_neg (hne _ (by decide))]
  · intro rest
    show (if decide (c = .char '/') && _ then _ else _) = _
    rw [hslash, hquote]
    rfl

theorem Reads.blanks (hu : Text.allBlank u = true) (ht : Reads start t bs s') :
    Reads start (u ++ t) bs s' :=
  ht.pass fun c hc => start_of_isBlank (List.all_eq_true.1 hu c hc)

theorem kinds_start_blanks (hu : Text.allBlank u = true) (t rest : Text) :
    start.kinds (u ++ t) rest = start.kinds t rest := by
  induction u with
  | nil => rfl
  | cons c r ih =>
    obtain ⟨hc, hr⟩ := Bool.and_eq_true_iff.1 hu
    obtain ⟨hnone, hnext⟩ := start_of_isBlank hc
    rw [List.cons_append, kinds, hnone, hnext, ih hr]
    rfl

theorem inert_of_isBlank (hc : Text.isBlank c = true) (t : Text) : Inert (c :: t) := by
  apply inert_cons
  have hne : ∀ d, Text.isBlank d = false → (c == d) = false := by
    intro d hd
    rw [beq_eq_false_iff_ne]
    rintro rfl
    rw [hc] at hd
    cases hd
  rw [isSought, isQuote, hne _ (by decide), hne _ (by decide), hne _ (by decide), hne _ (by decide)]
  rfl

theorem inert_of_allBlank (ht : Text.allBlank t = true) : Inert t := by
  cases t with
  | nil => exact inert_nil
  | cons c r => exact inert_of_isBlank (Bool.and_eq_true_iff.1 ht).1 r

/-- Blanks at the end of a text have no part in its braces. -/
theorem kinds_append_blanks (hs : s.IsProper) (hu : Text.allBlank u = true) (t : Text) :
    s.kinds (t ++ u) [] = s.kinds t [] := by
  rw [kinds_append, List.append_nil, kinds_congr hs (inert_of_allBlank hu) inert_nil,
    kinds_eq_nil (Text.not_mem_of_allBlank (by decide) hu)
      (Text.not_mem_of_allBlank (by decide) hu), List.append_nil]

theorem inert_join {sep : Text} {ls : List Text} (hsep : Inert sep) (h : ∀ l ∈ ls, Inert l) :
    Inert (Text.join sep ls) := by
  fun_induction Text.join sep ls with
  | case1 => exact inert_nil
  | case2 l => exact h l List.mem_cons_self
  | case3 l ls hls ih =>
    exact ((h l List.mem_cons_self).append hsep).append
      (ih fun l' hl' => h l' (List.mem_cons_of_mem l hl'))

/-- The braces of a text are those before a brace that opens a block, this brace, and those behind
it, whatever stands there. -/
theorem kinds_of_mem_braces {j : Nat} (h : ⟨j, .opening⟩ ∈ braces t) (rest : Text) :
    start.kinds (t.take (j + 1) ++ rest) [] =
      start.kinds (t.take j) [] ++ .opening :: start.kinds rest [] := by
  have hget := getElem?_of_mem_braces h
  have hafter := after_of_mem_scan h
  obtain ⟨hlt, hget⟩ := List.getElem?_eq_some_iff.1 hget
  have hinert : ∀ r, Inert (.char '{' :: r) := inert_cons (by decide)
  rw [List.drop_zero, Nat.sub_zero, List.drop_eq_getElem_cons hlt, hget] at hafter
  rw [List.take_add_one, List.getElem?_eq_getElem hlt, hget, List.append_assoc, kinds_append]
  show start.kinds (t.take j) (.char '{' :: rest ++ []) ++
    (start.after (t.take j) (.char '{' :: rest ++ [])).kinds (.char '{' :: rest) [] = _
  rw [List.append_nil, kinds_congr isProper_start (hinert rest) inert_nil,
    after_congr isProper_start (hinert rest) (hinert (t.drop (j + 1)))]
  rw [show start.after (t.take j) (.char '{' :: t.drop (j + 1)) = start from hafter]
  rfl

/-- Lines that are read from code to code are so as a text. -/
theorem reads_join {ls : List Text} (h : ∀ l ∈ ls, Reads start l [] start ∧ Inert l) :
    Reads start (Text.join [.char '\n'] ls) [] start := by
  fun_induction Text.join [.char '\n'] ls with
  | case1 => exact reads_of_alone isProper_start []
  | case2 l => exact (h l List.mem_cons_self).1
  | case3 l ls hls ih =>
    have hrest := ih fun l' hl' => h l' (List.mem_cons_of_mem l hl')
    rw [List.append_assoc]
    exact (h l List.mem_cons_self).1.append (hrest.blanks (by decide))
      (inert_of_isBlank (by decide) _)

/-! ## How a text ends -/

/-- As many characters at most are passed over as are left, unless the last one is a backslash in a
string. -/
def Bounded (s : ScanState) (n : Nat) : Prop :=
  s.skip ≤ n ∨ ∃ q, s = ⟨.quoted q, 1⟩

/-- Characters are passed over only if they are there, or hidden by a backslash. -/
theorem Bounded.next (hs : IsProper s) (hrest : Inert rest) (h : Bounded s (t.length + 1)) :
    Bounded (s.next c (t ++ rest)) t.length := by
  have hone : ∀ d, isSought d = true → ((t ++ rest).head? == some d) = true → 1 ≤ t.length := by
    intro d hd hhead
    cases t with
    | nil =>
      rw [hrest d (eq_of_beq hhead)] at hd
      cases hd
    | cons e r => exact Nat.le_add_left 1 _
  have htwo : ∀ q, isQuote q = true → [q, q].isPrefixOf (t ++ rest) = true → 2 ≤ t.length := by
    intro q hq hprefix
    rw [isPrefixOf_congr hrest inert_nil hq, List.append_nil] at hprefix
    exact (List.isPrefixOf_iff_prefix.1 hprefix).length_le
  unfold ScanState.next
  split
  · next skip hskip =>
    rcases h with h | ⟨q, rfl⟩
    · exact .inl (show skip ≤ t.length by omega)
    · exact .inl (show skip ≤ t.length by cases hskip; omega)
  · split
    · split
      · next hcond => exact .inl (hone _ (by decide) (Bool.and_eq_true_iff.1 hcond).2)
      · split
        · next hcond => exact .inl (hone _ (by decide) (Bool.and_eq_true_iff.1 hcond).2)
        · split
          · next hq =>
            split
            · next hprefix => exact .inl (htwo c hq hprefix)
            · exact .inl (Nat.zero_le _)
          · exact .inl (Nat.zero_le _)
    · split <;> exact .inl (Nat.zero_le _)
    · split
      · next hcond => exact .inl (hone _ (by decide) (Bool.and_eq_true_iff.1 hcond).2)
      · exact .inl (Nat.zero_le _)
    · split
      · exact .inr ⟨_, rfl⟩
      · split <;> exact .inl (Nat.zero_le _)
    · next quote hmode =>
      split
      · next hcond =>
        exact .inl (htwo quote (hs quote hmode) (Bool.and_eq_true_iff.1 hcond).2)
      · exact .inl (Nat.zero_le _)

theorem Bounded.after (hs : IsProper s) (hrest : Inert rest) (h : Bounded s t.length) :
    Bounded (s.after t rest) 0 := by
  induction t generalizing s with
  | nil => exact h
  | cons c r ih => exact ih (hs.next c _) (h.next hs hrest)

/-- Two line feeds lead back to code, if no comment or string of several lines is open. -/
theorem after_lineFeeds_eq_start (h : Bounded s 0) (hblock : s.mode ≠ .blockComment)
    (htripled : ∀ q, s.mode ≠ .tripled q) (rest : Text) :
    s.after [.char '\n', .char '\n'] rest = start := by
  have hcode : ∀ r, start.next (.char '\n') r = start := (start_of_isBlank (by decide)).2
  have hquoted : ∀ q r, ScanState.next ⟨.quoted q, 0⟩ (.char '\n') r = start := by
    intro q r
    simp [ScanState.next, start]
  obtain ⟨mode, skip⟩ := s
  rcases h with hskip | ⟨q, heq⟩
  · obtain rfl : skip = 0 := Nat.le_zero.1 hskip
    cases mode with
    | code => rfl
    | lineComment => rfl
    | blockComment => exact absurd rfl hblock
    | quoted q =>
      rw [after, hquoted, after, hcode]
      rfl
    | tripled q => exact absurd rfl (htripled q)
  · -- the first line feed is hidden by a backslash, and the second one ends the string
    cases heq
    show (ScanState.next ⟨.quoted q, 0⟩ (.char '\n') rest) = start
    exact hquoted q rest

theorem after_lineFeeds (hs : IsProper s) (h : Bounded s 0) (rest : Text) :
    s.after [.char '\n', .char '\n'] rest = start ∨
      s.after [.char '\n', .char '\n'] rest = ⟨.blockComment, 0⟩ ∨
      ∃ q, isQuote q = true ∧ s.after [.char '\n', .char '\n'] rest = ⟨.tripled q, 0⟩ := by
  obtain ⟨mode, skip⟩ := s
  cases mode with
  | code => exact .inl (after_lineFeeds_eq_start h (by simp) (by simp) rest)
  | lineComment => exact .inl (after_lineFeeds_eq_start h (by simp) (by simp) rest)
  | quoted q => exact .inl (after_lineFeeds_eq_start h (by simp) (by simp) rest)
  | blockComment =>
    obtain rfl : skip = 0 := by simpa [Bounded] using h
    exact .inr (.inl rfl)
  | tripled q =>
    obtain rfl : skip = 0 := by simpa [Bounded] using h
    have hq := hs q rfl
    have hstay : ∀ r, ScanState.next ⟨.tripled q, 0⟩ (.char '\n') r = ⟨.tripled q, 0⟩ := by
      intro r
      have hne : CodePoint.char '\n' ≠ q := by
        rintro rfl
        cases hq
      simp [ScanState.next, hne]
    refine .inr (.inr ⟨q, hq, ?_⟩)
    rw [after, hstay, after, hstay]
    rfl

end ScanState

/-! ## Levels -/

/-- The level that braces lead to from a level, unless they go below zero. -/
def level : Nat → List Brace → Option Nat
  | n, [] => some n
  | n, .opening :: bs => level (n + 1) bs
  | 0, .closing :: _ => none
  | n + 1, .closing :: bs => level n bs

theorem level_append (n : Nat) (bs cs : List Brace) :
    level n (bs ++ cs) = (level n bs).bind fun m => level m cs := by
  fun_induction level n bs with
  | case1 => rfl
  | case2 n bs ih => exact ih
  | case3 => rfl
  | case4 n bs ih => exact ih

theorem level_add {n m : Nat} {bs : List Brace} (h : level n bs = some m) (k : Nat) :
    level (n + k) bs = some (m + k) := by
  fun_induction level n bs with
  | case1 n =>
    cases h
    rfl
  | case2 n bs ih =>
    rw [level, Nat.add_right_comm]
    exact ih h
  | case3 => cases h
  | case4 n bs ih =>
    rw [Nat.succ_add, level]
    exact ih h

/-- Braces that pair up among themselves make no difference to the level. -/
theorem level_skip {ks : List Brace} (h : level 0 ks = some 0) (n : Nat) (bs cs : List Brace) :
    level n (bs ++ (ks ++ cs)) = level n (bs ++ cs) := by
  rw [level_append, level_append]
  refine Option.bind_congr fun m _ => ?_
  have hm := level_add h m
  rw [Nat.zero_add] at hm
  rw [level_append, hm]
  rfl

/-- The blocks left open are as many as the level says. -/
theorem level_map_brace (opened : List Nat) (bs : List BraceAt) :
    level opened.length (bs.map (·.brace)) = (openBlocks opened bs).toOption.map List.length := by
  fun_induction openBlocks opened bs with
  | case1 => rfl
  | case2 opened i bs ih => exact ih
  | case3 => rfl
  | case4 i opened j bs ih => exact ih

/-- A text is balanced when the braces met bring the level back to zero. -/
theorem balance_eq_ok_iff {t : Text} :
    balance t = .ok () ↔ level 0 (ScanState.start.kinds t []) = some 0 := by
  have hlevel := level_map_brace [] (braces t)
  rw [braces, bracesFrom, ScanState.map_brace_scan, List.drop_zero] at hlevel
  rw [show level 0 _ = _ from hlevel]
  unfold balance
  rw [braces, bracesFrom, List.drop_zero]
  cases openBlocks [] (ScanState.start.scan 0 t) with
  | error i =>
    constructor
    · intro h
      cases h
    · intro h
      cases h
  | ok opened =>
    cases opened with
    | nil => exact ⟨fun _ => rfl, fun _ => rfl⟩
    | cons i opened =>
      constructor
      · intro h
        dsimp only at h
        split at h
        · next hlast => cases opened <;> cases hlast
        · cases h
      · intro h
        cases h

/-! ## Partners -/

/-- Behind a brace that opens a block there is another one. -/
theorem ne_nil_of_level {bs cs : List Brace} (h : level 0 (bs ++ .opening :: cs) = some 0) : cs ≠ [] := by
  rintro rfl
  rw [level_append] at h
  cases hbs : level 0 bs with
  | none =>
    rw [hbs] at h
    cases h
  | some m =>
    rw [hbs] at h
    cases h

/-- A block that is opened is closed, and so there is more behind its brace than blanks. -/
theorem allBlank_behind {t : Text} {i : Nat} (hbalance : balance t = .ok ())
    (hbrace : ⟨i, .opening⟩ ∈ braces t) : Text.allBlank (t.drop (i + 1)) = false := by
  have hkinds := ScanState.kinds_of_mem_braces hbrace (t.drop (i + 1))
  rw [balance_eq_ok_iff] at hbalance
  rw [List.take_append_drop] at hkinds
  rw [hkinds] at hbalance
  refine Bool.eq_false_iff.2 fun hblank => ne_nil_of_level hbalance ?_
  exact ScanState.kinds_eq_nil (Text.not_mem_of_allBlank (by decide) hblank)
    (Text.not_mem_of_allBlank (by decide) hblank) _ _

/-- Braces that pair up among themselves are passed over in the search for a partner. -/
theorem closeAfter_append {n m : Nat} {bs : List BraceAt}
    (h : level n (bs.map (·.brace)) = some m) (cs : List BraceAt) :
    closeAfter (n + 1) (bs ++ cs) = closeAfter (m + 1) cs := by
  induction bs generalizing n with
  | nil =>
    cases h
    rfl
  | cons b bs ih =>
    obtain ⟨i, brace⟩ := b
    cases brace with
    | opening => exact ih (n := n + 1) h
    | closing =>
      cases n with
      | zero => cases h
      | succ n =>
        rw [List.cons_append, closeAfter, if_neg (by omega)]
        exact ih (n := n) h

/-- The partner of a brace is behind what pairs up within. -/
theorem closeOf_eq_ok {t x rest : Text} {i : Nat} {bs : List Brace}
    (ht : t.drop i = .char '{' :: (x ++ .char '}' :: rest))
    (hx : ScanState.start.Reads x bs ScanState.start)
    (hbs : level 0 bs = some 0) : closeOf t i = .ok (i + 1 + x.length) := by
  have hinert : ScanState.Inert (.char '}' :: rest) := ScanState.inert_cons (by decide) _
  obtain ⟨found, hscan, hkinds⟩ := ScanState.start.scan_append (i + 1) x (.char '}' :: rest)
  rw [hx.kinds _ hinert] at hkinds
  rw [hx.after _ hinert] at hscan
  have hbraces : bracesFrom t i = ⟨i, .opening⟩ :: (found ++ ⟨i + 1 + x.length, .closing⟩ ::
      ScanState.start.scan (i + 1 + x.length + 1) rest) := by
    rw [bracesFrom, ht]
    show _ :: ScanState.start.scan (i + 1) (x ++ .char '}' :: rest) = _
    rw [hscan]
    rfl
  have hclose : closeAfter 0 (bracesFrom t i) = some (i + 1 + x.length) := by
    rw [hbraces, closeAfter, closeAfter_append (n := 0) (m := 0) (by rw [hkinds, hbs])]
    rfl
  have hget : t[i]? = some (.char '{') := by
    rw [← List.head?_drop, ht]
    rfl
  unfold closeOf
  rw [Int.toNat_natCast, hget, hclose, if_pos (by simp)]

end Graft
