import Graft.Proofs.Brace.Automaton
import Graft.Proofs.Brace.Realigning

/-!
# What the automaton meets

The automaton knows nothing but what it has read. So a text can be read in parts without a look at
what follows them, and the braces that it meets are those of the parts (`Reading.met_append`). Most
characters mean nothing to it: they only settle what it was still in doubt about
(`Reading.step_plain`), so that a run of them is read as its first character is.

> `Reading.scan_foresee`: what the automaton meets is what the scanner finds.
> `braces_between`: the structural braces between two indices are met in the text between them.
> `reads_block`: the text from a brace to its partner is read from code to code, and its braces pair
> up.
-/

namespace Graft

open Text

/-- Whether a text is read in code at an index, that is outside of comments and strings. -/
def inCodeAt (t : Text) (i : Nat) : Bool :=
  (Reading.code.run (t.take i)).inCode

namespace Reading

open ScanState

variable {r : Reading} {c : CodePoint} {t u gap : Text} {e : BraceAt} {i j k : Nat} {b : Brace}

/-! ## Parts -/

/-- The braces that the automaton meets in a text whose first character has index `i`. -/
def met (r : Reading) (i : Nat) : Text → List BraceAt
  | [] => []
  | c :: t => ((if r.inCode then Brace.ofChar? c else none).map (⟨i, ·⟩)).toList ++
      (r.step c).met (i + 1) t

/-- The same without the indices. -/
def kinds (r : Reading) (t : Text) : List Brace :=
  (r.met 0 t).map (·.brace)

theorem run_append (r : Reading) (t u : Text) : r.run (t ++ u) = (r.run t).run u :=
  List.foldl_append

/-- **What the automaton meets is what the scanner finds.** -/
theorem scan_foresee (r : Reading) (i : Nat) (t : Text) : (r.foresee t).scan i t = r.met i t := by
  induction t generalizing r i with
  | nil => rfl
  | cons c t ih =>
    rw [scan, brace?_foresee, next_foresee, ih, met]
    cases (if r.inCode then Brace.ofChar? c else none) with
    | none => rfl
    | some b => rfl

theorem met_append (r : Reading) (i : Nat) (t u : Text) :
    r.met i (t ++ u) = r.met i t ++ (r.run t).met (i + t.length) u := by
  induction t generalizing r i with
  | nil => rfl
  | cons c t ih =>
    rw [List.cons_append, met, met, ih, List.append_assoc, List.length_cons, Nat.add_right_comm i 1,
      Nat.add_assoc i]
    rfl

/-- What is met has an index in the text. -/
theorem bounds_of_mem_met (h : e ∈ r.met i t) : i ≤ e.index ∧ e.index < i + t.length := by
  obtain ⟨k, b⟩ := e
  rw [← scan_foresee, mem_scan_foresee_iff] at h
  obtain ⟨n, rfl, hget, -⟩ := h
  obtain ⟨hlt, -⟩ := List.getElem?_eq_some_iff.1 hget
  exact ⟨Nat.le_add_right i n, Nat.add_lt_add_left hlt i⟩

theorem map_brace_met (r : Reading) (i : Nat) (t : Text) :
    (r.met i t).map (·.brace) = r.kinds t := by
  have hshift : ∀ i j, (r.met i t).map (·.brace) = (r.met j t).map (·.brace) := by
    induction t generalizing r with
    | nil => exact fun _ _ => rfl
    | cons c t ih =>
      intro i j
      rw [met, met, List.map_append, List.map_append, ih (r.step c) (i + 1) (j + 1)]
      cases (if r.inCode then Brace.ofChar? c else none) with
      | none => rfl
      | some b => rfl
  exact hshift i 0

theorem kinds_nil (r : Reading) : r.kinds [] = [] := rfl

theorem kinds_append (r : Reading) (t u : Text) :
    r.kinds (t ++ u) = r.kinds t ++ (r.run t).kinds u := by
  rw [kinds, met_append, List.map_append, map_brace_met, map_brace_met]

theorem kinds_cons (r : Reading) (c : CodePoint) (t : Text) : r.kinds (c :: t) =
    (if r.inCode then Brace.ofChar? c else none).toList ++ (r.step c).kinds t := by
  rw [kinds, met, List.map_append, map_brace_met]
  cases (if r.inCode then Brace.ofChar? c else none) with
  | none => rfl
  | some b => rfl

/-- A character that is no brace is passed over. -/
theorem met_cons_of_ne (hopening : c ≠ .char '{') (hclosing : c ≠ .char '}') (r : Reading) (i : Nat)
    (t : Text) : r.met i (c :: t) = (r.step c).met (i + 1) t := by
  rw [met, Brace.ofChar?, if_neg hopening, if_neg hclosing, ite_self]
  rfl

/-- Reading on behind a part, the scanner is where the automaton is. -/
theorem after_foresee (r : Reading) (t rest : Text) :
    (r.foresee (t ++ rest)).after t rest = (r.run t).foresee rest := by
  induction t generalizing r with
  | nil => rfl
  | cons c t ih =>
    rw [List.cons_append, after, next_foresee, ih]
    rfl

theorem kinds_foresee (r : Reading) (t rest : Text) :
    (r.foresee (t ++ rest)).kinds t rest = r.kinds t := by
  obtain ⟨found, hscan, hkinds⟩ := (r.foresee (t ++ rest)).scan_append 0 t rest
  rw [after_foresee, scan_foresee, scan_foresee, met_append] at hscan
  rw [← hkinds, ← List.append_cancel_right hscan]
  rfl

/-- Where the scanner is in code, so is the automaton. -/
theorem inCode_of_foresee (h : r.foresee t = start) : r.inCode = true := by
  cases r with
  | code | slash | two => rfl
  | lineComment | blockComment | quoted | escaped | tripled => cases h
  | star | one | closingOne | closingTwo =>
    rw [foresee] at h
    split at h <;> cases h

/-- Where there is no brace, none is met. -/
theorem met_eq_nil (hopening : .char '{' ∉ t) (hclosing : .char '}' ∉ t) (r : Reading) (i : Nat) :
    r.met i t = [] := by
  induction t generalizing r i with
  | nil => rfl
  | cons c t ih =>
    rw [List.mem_cons, not_or] at hopening hclosing
    rw [met_cons_of_ne (Ne.symm hopening.1) (Ne.symm hclosing.1)]
    exact ih hopening.2 hclosing.2 _ _

/-- Outside of code, no brace is met. -/
theorem met_eq_nil_of_forall (h : ∀ k < t.length, (r.run (t.take k)).inCode = false) (i : Nat) :
    r.met i t = [] := by
  rw [List.eq_nil_iff_forall_not_mem]
  rintro ⟨j, b⟩ hmem
  rw [← scan_foresee, mem_scan_foresee_iff] at hmem
  obtain ⟨k, -, hget, hcode⟩ := hmem
  obtain ⟨hlt, -⟩ := List.getElem?_eq_some_iff.1 hget
  rw [h k hlt] at hcode
  cases hcode

/-- A line feed is no brace. -/
theorem kinds_lineFeed (r : Reading) (t : Text) :
    r.kinds (.char '\n' :: t) = (r.step (.char '\n')).kinds t := by
  rw [kinds, met_cons_of_ne (by decide) (by decide), map_brace_met]

/-- What is in code behind a line feed is in code and nothing else. -/
theorem step_lineFeed (h : (r.step (.char '\n')).inCode = true) : r.step (.char '\n') = code := by
  cases r with
  | code | slash | lineComment => rfl
  | blockComment | star | escaped => cases h
  | one q | two q | quoted q => cases q <;> rfl
  | tripled q | closingOne q | closingTwo q => cases q <;> cases h

/-- A comment goes on to the end of its line. -/
theorem run_lineComment (ht : .char '\n' ∉ t) : lineComment.run t = lineComment := by
  induction t with
  | nil => rfl
  | cons c t ih =>
    rw [List.mem_cons, not_or] at ht
    rw [run, List.foldl_cons, step, if_neg (Ne.symm ht.1)]
    exact ih ht.2

theorem met_lineComment (ht : .char '\n' ∉ t) (i : Nat) : lineComment.met i t = [] := by
  refine met_eq_nil_of_forall (fun k _ => ?_) i
  rw [run_lineComment fun hmem => ht (List.take_subset k t hmem)]
  rfl

/-! ## Characters without a meaning -/

/-- Whether a character neither begins nor ends a comment or a string, nor hides what follows. -/
def isPlain (c : CodePoint) : Bool :=
  !isSought c && c != .char '\\' && c != .char '\n'

/-- What a reading comes to when nothing of a meaning follows: what may become something else does
not. -/
def settle : Reading → Reading
  | code => code
  | slash => code
  | two _ => code
  | lineComment => lineComment
  | blockComment => blockComment
  | star => blockComment
  | one q => quoted q
  | quoted q => quoted q
  | escaped q => quoted q
  | tripled q => tripled q
  | closingOne q => tripled q
  | closingTwo q => tripled q

theorem isPlain_iff : isPlain c = true ↔
    c ≠ .char '/' ∧ c ≠ .char '*' ∧ c ≠ .char '\'' ∧ c ≠ .char '"' ∧ c ≠ .char '\\' ∧
    c ≠ .char '\n' := by
  simp [isPlain, isSought, isQuote, and_assoc]

theorem step_plain (hc : isPlain c = true) (r : Reading) : r.step c = r.settle := by
  obtain ⟨hslash, hstar, hsingle, hdouble, hhide, hfeed⟩ := isPlain_iff.1 hc
  have hquote : ∀ q : Quote, c ≠ q.toChar := by
    intro q
    cases q with
    | single => exact hsingle
    | double => exact hdouble
  have hcode : ofCode c = code := by
    rw [ofCode, if_neg hslash, Quote.ofChar?, if_neg hsingle, if_neg hdouble]
  have hquoted : ∀ q, ofQuoted q c = quoted q := by
    intro q
    rw [ofQuoted, if_neg hhide, if_neg (hquote q), if_neg hfeed]
  cases r <;>
    simp only [step, settle, hslash, hstar, hfeed, hquote, hcode, hquoted, if_false]

theorem settle_settle (r : Reading) : r.settle.settle = r.settle := by
  cases r <;> rfl

theorem inCode_settle (r : Reading) : r.settle.inCode = r.inCode := by
  cases r <;> rfl

theorem settle_of_inCode (h : r.inCode = true) : r.settle = code := by
  cases r <;> first | rfl | cases h

theorem run_settle (ht : t.all isPlain = true) (r : Reading) : r.settle.run t = r.settle := by
  induction t with
  | nil => rfl
  | cons c t ih =>
    obtain ⟨hc, ht⟩ := Bool.and_eq_true_iff.1 ht
    rw [run, List.foldl_cons, step_plain hc, settle_settle]
    exact ih ht

/-- **A run of plain characters is read as its first one is.** -/
theorem run_plain (hne : t ≠ []) (ht : t.all isPlain = true) (r : Reading) :
    r.run t = r.settle := by
  cases t with
  | nil => exact absurd rfl hne
  | cons c t =>
    obtain ⟨hc, ht⟩ := Bool.and_eq_true_iff.1 ht
    rw [run, List.foldl_cons, step_plain hc]
    exact run_settle ht r

/-- Plain characters do not lead out of code. -/
theorem run_code_plain (ht : t.all isPlain = true) : code.run t = code :=
  run_settle ht code

/-- Plain characters lead neither into code nor out of it. -/
theorem inCode_run_plain (ht : t.all isPlain = true) (r : Reading) :
    (r.run t).inCode = r.inCode := by
  cases t with
  | nil => rfl
  | cons c t => rw [run_plain (List.cons_ne_nil c t) ht, inCode_settle]

/-- A class of characters that has none of a meaning in it is plain. -/
theorem isPlain_of_forall {p : CodePoint → Bool}
    (hp : ∀ d ∈ [.char '/', .char '*', .char '\'', .char '"', .char '\\'], p d = false)
    (hc : p c = true) (hfeed : c ≠ .char '\n') :
    isPlain c = true := by
  have hne : ∀ d ∈ [.char '/', .char '*', .char '\'', .char '"', .char '\\'], c ≠ d := fun d hd =>
    ne_of_apply_ne p (by rw [hc, hp d hd]; decide)
  exact isPlain_iff.2 ⟨hne _ (by decide), hne _ (by decide), hne _ (by decide), hne _ (by decide),
    hne _ (by decide), hfeed⟩

theorem isPlain_of_isBlank (hc : isBlank c = true) (hfeed : c ≠ .char '\n') : isPlain c = true :=
  isPlain_of_forall (by decide) hc hfeed

theorem isPlain_of_isWord (hc : isWord c = true) : isPlain c = true :=
  isPlain_of_forall (by decide) hc (ne_of_apply_ne isWord (by rw [hc]; decide))

theorem isPlain_of_isIndent (hc : isIndent c = true) : isPlain c = true :=
  isPlain_of_forall (by decide) hc (ne_of_apply_ne isIndent (by rw [hc]; decide))

theorem all_isPlain_of_allBlank (ht : allBlank t = true) (hfeed : .char '\n' ∉ t) :
    t.all isPlain = true := by
  refine List.all_eq_true.2 fun c hc => isPlain_of_isBlank (List.all_eq_true.1 ht c hc) ?_
  rintro rfl
  exact hfeed hc

/-! ## Blanks -/

theorem step_blank (hc : isBlank c = true) (r : Reading) :
    r.step c = r.settle ∨ (c = .char '\n' ∧ r.step c = r.step (.char '\n')) := by
  by_cases hfeed : c = .char '\n'
  · exact .inr ⟨hfeed, by rw [hfeed]⟩
  · exact .inl (step_plain (isPlain_of_isBlank hc hfeed) r)

/-- Some readings are not changed by blanks. -/
theorem run_blanks (hsettled : r.settle = r) (hfeed : r.step (.char '\n') = r)
    (ht : allBlank t = true) :
    r.run t = r := by
  induction t with
  | nil => rfl
  | cons c t ih =>
    obtain ⟨hc, ht⟩ := Bool.and_eq_true_iff.1 ht
    have hstep : r.step c = r := by
      rcases step_blank hc r with h | ⟨-, h⟩
      · rw [h, hsettled]
      · rw [h, hfeed]
    rw [run, List.foldl_cons, hstep]
    exact ih ht

/-- Blanks do not lead out of code. -/
theorem run_code_blanks (ht : allBlank t = true) : code.run t = code :=
  run_blanks rfl rfl ht

/-- A comment or a string is left open that ends with its line. -/
def IsLeftOpen (r : Reading) : Prop :=
  r = lineComment ∨ ∃ q, r = quoted q

instance (r : Reading) : Decidable r.IsLeftOpen :=
  match r with
  | lineComment => .isTrue (.inl rfl)
  | quoted q => .isTrue (.inr ⟨q, rfl⟩)
  | code | slash | blockComment | star | one _ | two _ | escaped _ | tripled _ | closingOne _
  | closingTwo _ => .isFalse (by rintro (h | ⟨_, h⟩) <;> cases h)

/-- **How blanks lead to code**: from code, or by a line feed from what ends with its line. -/
theorem inCode_of_run_blanks (hgap : allBlank gap = true) (h : (r.settle.run gap).inCode = true) :
    r.inCode = true ∨ (r.settle.IsLeftOpen ∧ .char '\n' ∈ gap) := by
  have hfeed : r.inCode = false → .char '\n' ∈ gap := by
    intro hcode
    refine Decidable.byContradiction fun hfeed => ?_
    rw [run_settle (all_isPlain_of_allBlank hgap hfeed), inCode_settle, hcode] at h
    cases h
  -- a comment or a string that goes on over lines is not ended by blanks
  have hstays : ∀ s : Reading, r.settle = s → s.settle = s → s.step (.char '\n') = s →
      s.inCode = true := by
    rintro s hs hsettled hstep
    rwa [hs, run_blanks hsettled hstep hgap] at h
  cases r with
  | code | slash | two => exact .inl rfl
  | lineComment => exact .inr ⟨.inl rfl, hfeed rfl⟩
  | one q | quoted q | escaped q => exact .inr ⟨.inr ⟨q, rfl⟩, hfeed rfl⟩
  | blockComment | star => exact absurd (hstays .blockComment rfl rfl rfl) (by decide)
  | tripled q | closingOne q | closingTwo q =>
    have hstep : (tripled q).step (.char '\n') = tripled q := by cases q <;> rfl
    exact absurd (hstays (.tripled q) rfl rfl hstep) (by cases q <;> decide)

end Reading

open Reading

variable {t : Text} {i j k : Nat} {b : Brace}

/-! ## Structural braces -/

theorem braces_eq_met (t : Text) : braces t = code.met 0 t := by
  rw [← scan_foresee]
  rfl

theorem mem_braces_iff : ⟨k, b⟩ ∈ braces t ↔ t[k]? = some b.toChar ∧ inCodeAt t k = true := by
  have hiff := @mem_scan_foresee_iff .code t 0 k b
  rw [show ⟨k, b⟩ ∈ braces t ↔ _ from hiff]
  constructor
  · rintro ⟨n, rfl, h⟩
    rwa [Nat.zero_add]
  · exact fun h => ⟨k, (Nat.zero_add k).symm, h⟩

theorem balance_eq_ok_iff_kinds : balance t = .ok () ↔ level 0 (code.kinds t) = some 0 := by
  rw [balance_eq_ok_iff, Reading.kinds, ← braces_eq_met, braces, bracesFrom,
    ScanState.map_brace_scan, List.drop_zero]

/-- **The structural braces between two indices** are met in the text between them. -/
theorem braces_between (hij : i ≤ j) (hj : j ≤ t.length) :
    (braces t).filter (fun e => decide (i ≤ e.index) && decide (e.index < j)) =
      (code.run (t.take i)).met i (slice t i j) := by
  have hi : (t.take i).length = i := List.length_take_of_le (Nat.le_trans hij hj)
  have hsplit : braces t = code.met 0 (t.take i) ++ ((code.run (t.take i)).met i (slice t i j) ++
      (code.run (t.take j)).met j (t.drop j)) := by
    have hend : i + (slice t i j).length = j := by
      rw [length_slice hj, Nat.add_sub_cancel' hij]
    have hread := met_append code 0 (t.take i) (t.drop i)
    rwa [List.take_append_drop, ← braces_eq_met, Nat.zero_add, hi, ← slice_append_drop hij t,
      met_append, ← run_append, take_append_slice hij, hend] at hread
  have hbefore : ∀ e ∈ code.met 0 (t.take i),
      ¬(decide (i ≤ e.index) && decide (e.index < j)) = true := by
    intro e he
    have := (bounds_of_mem_met he).2
    rw [hi] at this
    simp
    omega
  have hbetween : ∀ e ∈ (code.run (t.take i)).met i (slice t i j),
      (decide (i ≤ e.index) && decide (e.index < j)) = true := by
    intro e he
    obtain ⟨hle, hlt⟩ := bounds_of_mem_met he
    rw [length_slice hj] at hlt
    simp
    omega
  have hbehind : ∀ e ∈ (code.run (t.take j)).met j (t.drop j),
      ¬(decide (i ≤ e.index) && decide (e.index < j)) = true := by
    intro e he
    have := (bounds_of_mem_met he).1
    simp
    omega
  rw [hsplit, List.filter_append, List.filter_append, List.filter_eq_nil_iff.2 hbefore,
    List.filter_eq_self.2 hbetween, List.filter_eq_nil_iff.2 hbehind, List.append_nil]
  rfl

/-- What stands between a brace and its partner, and the two of them. -/
theorem slice_block (h : closeOf t i = .ok j) :
    slice t i (j + 1) = .char '{' :: (slice t (i + 1) j ++ [.char '}']) ∧
      t.drop i = .char '{' :: (slice t (i + 1) j ++ .char '}' :: t.drop (j + 1)) ∧
      i + 1 + (slice t (i + 1) j).length = j := by
  obtain ⟨-, hlt, hopening, hclosing⟩ := getElem?_of_closeOf h
  rw [Int.toNat_natCast] at hlt hopening
  obtain ⟨hj, -⟩ := List.getElem?_eq_some_iff.1 hclosing
  have hcons : ∀ {k c}, t[k]? = some c → t.drop k = c :: t.drop (k + 1) := by
    intro k c hk
    rw [List.drop_eq_getElem?_toList_append, hk]
    rfl
  have hdrop : t.drop i = .char '{' :: (slice t (i + 1) j ++ .char '}' :: t.drop (j + 1)) := by
    rw [hcons hopening, ← hcons hclosing, slice_append_drop hlt]
  refine ⟨?_, hdrop, ?_⟩
  · have hwhole : slice t i (j + 1) ++ t.drop (j + 1) =
        .char '{' :: (slice t (i + 1) j ++ [.char '}']) ++ t.drop (j + 1) := by
      rw [slice_append_drop (by omega), hdrop]
      simp
    exact List.append_cancel_right hwhole
  · rw [length_slice (Nat.le_of_lt hj), Nat.add_sub_cancel' hlt]

/-- **The text from a brace to its partner** is read from code to code, and its braces pair up. -/
theorem reads_block (h : closeOf t i = .ok j) :
    code.run (slice t i (j + 1)) = code ∧ level 0 (code.kinds (slice t i (j + 1))) = some 0 := by
  obtain ⟨hslice, hdrop, hlength⟩ := slice_block h
  rw [← hlength] at h
  obtain ⟨bs, hreads, hlevel⟩ := reads_of_closeOf hdrop h
  have hinert : ScanState.Inert (.char '}' :: t.drop (j + 1)) := ScanState.inert_cons (by decide) _
  -- the scanner is in code at the closing brace, and so is the automaton
  have hafter := after_foresee code (slice t (i + 1) j) (.char '}' :: t.drop (j + 1))
  have hkinds := kinds_foresee code (slice t (i + 1) j) (.char '}' :: t.drop (j + 1))
  rw [show code.foresee _ = ScanState.start from rfl] at hafter hkinds
  rw [hreads.after _ hinert] at hafter
  rw [hreads.kinds _ hinert] at hkinds
  have hcode := inCode_of_foresee hafter.symm
  have hclose : (code.run (slice t (i + 1) j)).kinds [.char '}'] = [.closing] := by
    rw [kinds_cons, if_pos hcode]
    rfl
  rw [hslice]
  constructor
  · show code.run (slice t (i + 1) j ++ [.char '}']) = code
    rw [run_append, run_plain (by simp) (by decide), settle_of_inCode hcode]
  · have hopen : code.kinds (.char '{' :: (slice t (i + 1) j ++ [.char '}'])) =
        .opening :: (bs ++ [.closing]) := by
      rw [hkinds, ← hclose, ← kinds_append, kinds_cons]
      rfl
    rw [hopen, level, level_append, level_add hlevel 1]
    rfl

end Graft
