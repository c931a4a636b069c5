import Graft.Proofs.Brace.Reading
import Graft.Proofs.Text.Lines
import Mathlib.Logic.ExistsUnique

/-!
# Partners

A text is checked as a whole with a stack of the blocks that are open, while the partner of a brace
is found with a counter that starts at it, in the middle of the text. Two facts bring them together.
The scan can be taken up again at every brace that it finds (`bracesFrom_eq_dropWhile`). And a block
that lies below `p` others in the stack is the one that is closed when a counter at `p + 1` comes
back to zero, so that what is read takes blocks off the stack as it takes counters to zero
(`openBlocks_eq`, `exists_opening`).

> `balance_spec`: a balanced text is one in which the opening braces and the closing ones are
> partners, one to one and properly nested; otherwise the check reports the opening braces that have
> no partner, or the first closing brace that is none.
-/

namespace Graft

open Text ScanState

variable {t : Text} {i j k : Nat} {b : Brace} {as bs cs : List BraceAt} {opened final : List Nat}

/-! ## Taking up the scan -/

theorem bracesFrom_of_getElem? (h : t[i]? = some b.toChar) :
    bracesFrom t i = ⟨i, b⟩ :: (start.next b.toChar (t.drop (i + 1))).scan (i + 1) (t.drop (i + 1)) := by
  obtain ⟨hlt, hget⟩ := List.getElem?_eq_some_iff.1 h
  have hbrace : start.brace? b.toChar = some b := by cases b <;> rfl
  rw [bracesFrom, List.drop_eq_getElem_cons hlt, hget, scan, hbrace]

/-- **From a brace that it finds, the scan gives what it gives from there on.** -/
theorem bracesFrom_eq_dropWhile (h : ⟨i, b⟩ ∈ bracesFrom t k) :
    bracesFrom t i = (bracesFrom t k).dropWhile (·.index < i) := by
  obtain ⟨hle, hget⟩ := getElem?_of_mem_bracesFrom h
  obtain ⟨hlt, -⟩ := List.getElem?_eq_some_iff.1 hget
  obtain ⟨found, hscan, -⟩ := start.scan_append k ((t.drop k).take (i - k)) ((t.drop k).drop (i - k))
  have hlength : k + ((t.drop k).take (i - k)).length = i := by
    rw [List.length_take, List.length_drop]
    omega
  rw [after_of_mem_scan h, List.take_append_drop, hlength, List.drop_drop, Nat.add_sub_cancel' hle]
    at hscan
  have hsplit : bracesFrom t k = found ++ bracesFrom t i := hscan
  have hbefore : ∀ e ∈ found, (decide (e.index < i)) = true := by
    intro e he
    have hsorted := pairwise_scan start k (t.drop k)
    rw [hscan, List.pairwise_append] at hsorted
    refine decide_eq_true (hsorted.2.2 e he ⟨i, b⟩ ?_)
    rw [show start.scan i (t.drop i) = _ from bracesFrom_of_getElem? hget]
    exact List.mem_cons_self
  rw [hsplit, List.dropWhile_append_of_pos hbefore, bracesFrom_of_getElem? hget,
    List.dropWhile_cons_of_neg (by simp)]

/-- The partner of a brace is found among those behind it. -/
theorem closeOf_of_braces (h : braces t = as ++ ⟨i, .opening⟩ :: bs) :
    closeOf t i = match closeAfter 1 bs with
      | some j => .ok j
      | none => .error (.neverClosed (Place.of t i)) := by
  have hmem : ⟨i, .opening⟩ ∈ braces t := by
    rw [h]
    simp
  have hsorted := pairwise_braces t
  rw [h, List.pairwise_append] at hsorted
  have hbefore : ∀ e ∈ as, (decide (e.index < i)) = true := fun e he =>
    decide_eq_true (hsorted.2.2 e he _ List.mem_cons_self)
  have hfrom : bracesFrom t i = ⟨i, .opening⟩ :: bs := by
    rw [bracesFrom_eq_dropWhile hmem, show bracesFrom t 0 = braces t from rfl, h,
      List.dropWhile_append_of_pos hbefore, List.dropWhile_cons_of_neg (by simp)]
  have hget : t[i]? = some (.char '{') := getElem?_of_mem_braces hmem
  have hclose : closeAfter 0 (bracesFrom t i) = closeAfter 1 bs := by rw [hfrom, closeAfter]
  cases hafter : closeAfter 1 bs with
  | none => simp [closeOf, hget, hclose, hafter]
  | some j => simp [closeOf, hget, hclose, hafter]

theorem closeOf_eq_ok_iff (h : braces t = as ++ ⟨i, .opening⟩ :: bs) :
    closeOf t i = .ok j ↔ closeAfter 1 bs = some j := by
  rw [closeOf_of_braces h]
  cases closeAfter 1 bs with
  | none => simp
  | some k => simp

/-! ## Counters -/

theorem closeAfter_append_of_some {n : Nat} (h : closeAfter n as = some j) (bs : List BraceAt) :
    closeAfter n (as ++ bs) = some j := by
  fun_induction closeAfter n as with
  | case1 => cases h
  | case2 n i as ih => exact ih h
  | case3 i as => exact h
  | case4 n i as hn ih =>
    rw [List.cons_append, closeAfter, if_neg hn]
    exact ih h

/-- A counter that does not come back to zero goes on from where it is. -/
theorem exists_closeAfter_append {n : Nat} (h : closeAfter (n + 1) as = none) (bs : List BraceAt) :
    ∃ m, closeAfter (n + 1) (as ++ bs) = closeAfter (m + 1) bs := by
  induction as generalizing n with
  | nil => exact ⟨n, rfl⟩
  | cons e as ih =>
    obtain ⟨i, b⟩ := e
    cases b with
    | opening => exact @ih (n + 1) h
    | closing =>
      cases n with
      | zero => cases h
      | succ n =>
        rw [closeAfter, if_neg (by omega)] at h
        rw [List.cons_append, closeAfter, if_neg (by omega)]
        exact ih h

/-- A higher counter comes back to zero later. -/
theorem lt_of_closeAfter {m n : Nat} (hsorted : bs.Pairwise (·.index < ·.index)) (hmn : m < n)
    (hj : closeAfter (m + 1) bs = some j) (hk : closeAfter (n + 1) bs = some k) : j < k := by
  induction bs generalizing m n with
  | nil => cases hj
  | cons e bs ih =>
    obtain ⟨hfirst, hrest⟩ := List.pairwise_cons.1 hsorted
    obtain ⟨i, b⟩ := e
    cases b with
    | opening => exact @ih (m + 1) (n + 1) hrest (by omega) hj hk
    | closing =>
      obtain ⟨n, rfl⟩ : ∃ n', n = n' + 1 := ⟨n - 1, by omega⟩
      rw [closeAfter, if_neg (by omega)] at hk
      cases m with
      | zero =>
        cases hj
        exact hfirst _ (mem_of_closeAfter hk)
      | succ m =>
        rw [closeAfter, if_neg (by omega)] at hj
        exact ih hrest (by omega) hj hk

/-! ## The stack -/

/-- The opening braces behind which a counter does not come back to zero. -/
def lonely : List BraceAt → List Nat
  | [] => []
  | ⟨i, .opening⟩ :: bs => if closeAfter 1 bs = none then i :: lonely bs else lonely bs
  | ⟨_, .closing⟩ :: bs => lonely bs

/-- **What is left on the stack.** On top there are the opening braces that were read and have no
partner, and below them those blocks of the old stack that no counter reaches. -/
theorem openBlocks_eq (h : openBlocks opened bs = .ok final) : ∃ kept, kept <:+ opened ∧
    final = (lonely bs).reverse ++ kept ∧
    ∀ p < opened.length, closeAfter (p + 1) bs = none ↔ opened.length ≤ p + kept.length := by
  induction bs generalizing opened with
  | nil =>
    cases h
    exact ⟨final, List.suffix_refl _, rfl, fun p _ => ⟨fun _ => by omega, fun _ => rfl⟩⟩
  | cons e bs ih =>
    obtain ⟨i, b⟩ := e
    cases b with
    | opening =>
      obtain ⟨kept, hsuffix, hfinal, hreach⟩ := @ih (i :: opened) h
      have htop := hreach 0 (Nat.zero_lt_succ _)
      have hbelow : ∀ p < opened.length,
          closeAfter (p + 1) (⟨i, .opening⟩ :: bs) = none ↔ opened.length ≤ p + kept.length := by
        intro p hp
        rw [closeAfter, hreach (p + 1) (Nat.succ_lt_succ hp), List.length_cons]
        omega
      rcases List.suffix_cons_iff.1 hsuffix with heq | hkept
      · -- the block that was opened is still open
        rw [heq, List.length_cons] at hbelow htop
        have hnone := htop.2 (by omega)
        refine ⟨opened, List.suffix_refl _, ?_, fun p hp => ?_⟩
        · rw [hfinal, heq, lonely, if_pos hnone, List.reverse_cons, List.append_assoc]
          rfl
        · rw [hbelow p hp]
          omega
      · have hle := hkept.length_le
        have hsome : closeAfter 1 bs ≠ none := by
          intro hnone
          have := htop.1 hnone
          rw [List.length_cons] at this
          omega
        refine ⟨kept, hkept, ?_, hbelow⟩
        rw [hfinal, lonely, if_neg hsome]
    | closing =>
      cases opened with
      | nil => cases h
      | cons top opened =>
        obtain ⟨kept, hsuffix, rfl, hreach⟩ := @ih opened h
        refine ⟨kept, hsuffix.trans (List.suffix_cons top opened), rfl, ?_⟩
        intro p hp
        cases p with
        | zero =>
          have hle := hsuffix.length_le
          rw [closeAfter, if_pos rfl, List.length_cons]
          constructor
          · intro hnone
            cases hnone
          · intro hlt
            omega
        | succ p =>
          rw [closeAfter, if_neg (by omega), Nat.add_sub_cancel, hreach p (Nat.lt_of_succ_lt_succ hp),
            List.length_cons]
          omega

/-- **Every closing brace closes a block**, if none is unexpected: one that was opened on the way,
or one of the old stack. -/
theorem exists_opening (h : openBlocks opened bs = .ok final) (hj : ⟨j, .closing⟩ ∈ bs) :
    (∃ p < opened.length, closeAfter (p + 1) bs = some j) ∨
      ∃ as i cs, bs = as ++ ⟨i, .opening⟩ :: cs ∧ closeAfter 1 cs = some j := by
  induction bs generalizing opened with
  | nil => cases hj
  | cons e bs ih =>
    -- a brace that is opened behind the first one is opened on the way
    have hlater : (∃ as i cs, bs = as ++ ⟨i, .opening⟩ :: cs ∧ closeAfter 1 cs = some j) →
        ∃ as i cs, e :: bs = as ++ ⟨i, .opening⟩ :: cs ∧ closeAfter 1 cs = some j := by
      rintro ⟨as, i, cs, rfl, hclose⟩
      exact ⟨e :: as, i, cs, rfl, hclose⟩
    obtain ⟨i, b⟩ := e
    cases b with
    | opening =>
      have hmem : ⟨j, .closing⟩ ∈ bs := by simpa using hj
      rcases @ih (i :: opened) h hmem with ⟨p, hp, hclose⟩ | hon
      · cases p with
        | zero => exact .inr ⟨[], i, bs, rfl, hclose⟩
        | succ p => exact .inl ⟨p, Nat.lt_of_succ_lt_succ hp, hclose⟩
      · exact .inr (hlater hon)
    | closing =>
      cases opened with
      | nil => cases h
      | cons top opened =>
        rcases List.mem_cons.1 hj with heq | hmem
        · cases heq
          exact .inl ⟨0, Nat.zero_lt_succ _, rfl⟩
        · rcases @ih opened h hmem with ⟨p, hp, hclose⟩ | hon
          · refine .inl ⟨p + 1, Nat.succ_lt_succ hp, ?_⟩
            rw [closeAfter, if_neg (by omega)]
            exact hclose
          · exact .inr (hlater hon)

/-- At an unexpected brace the stack is empty. -/
theorem exists_of_openBlocks_eq_error (h : openBlocks opened bs = .error j) :
    ∃ as cs, bs = as ++ ⟨j, .closing⟩ :: cs ∧ openBlocks opened as = .ok [] := by
  fun_induction openBlocks opened bs with
  | case1 => cases h
  | case2 opened i bs ih =>
    obtain ⟨as, cs, rfl, hopen⟩ := ih h
    exact ⟨⟨i, .opening⟩ :: as, cs, rfl, hopen⟩
  | case3 i bs =>
    cases h
    exact ⟨[], bs, rfl, rfl⟩
  | case4 top opened i bs ih =>
    obtain ⟨as, cs, rfl, hopen⟩ := ih h
    exact ⟨⟨i, .closing⟩ :: as, cs, rfl, hopen⟩

/-! ## Pairs -/

/-- There is a structural brace at `i` that opens a block, and its partner is found at `j`. -/
def Partners (t : Text) (i j : Nat) : Prop :=
  ⟨i, .opening⟩ ∈ braces t ∧ closeOf t i = .ok j

/-- Whether a brace opens a block, and no partner is found for it. -/
def isUnclosed (t : Text) (e : BraceAt) : Bool :=
  e.brace == .opening && !(closeOf t e.index).isOk

/-- The structural braces that open a block and for which no partner is found. -/
def unclosed (t : Text) : List BraceAt :=
  (braces t).filter (isUnclosed t)

/-- The opening braces and the closing ones are partners, one to one, and two pairs of them are one
within the other or one behind the other. -/
structure Paired (t : Text) : Prop where
  closed : ∀ i, ⟨i, .opening⟩ ∈ braces t → ∃ j, i < j ∧ ⟨j, .closing⟩ ∈ braces t ∧ Partners t i j
  opened : ∀ j, ⟨j, .closing⟩ ∈ braces t → ∃! i, Partners t i j
  nested : ∀ i j k l, Partners t i j → Partners t k l → i < k → j < k ∨ l < j

/-- A place is the one of an index: its line is one plus the line feeds before it, and its column one
plus the characters before it in its line. -/
structure Place.IsAt (p : Place) (t : Text) (i : Nat) : Prop where
  line : p.line = (t.take i).count (.char '\n') + 1
  column : ∃ above line, t.take i = above ++ line ∧
    (above = [] ∨ above.getLast? = some (.char '\n')) ∧
    .char '\n' ∉ line ∧ p.column = line.length + 1

theorem Place.isAt_of (hi : i ≤ t.length) : (Place.of t i).IsAt t i := by
  obtain ⟨above, line, htake, hstart, hline, habove⟩ := exists_lineStart t i
  refine ⟨rfl, above, line, htake, habove, hline, ?_⟩
  have hlength := congrArg List.length htake
  rw [List.length_take, List.length_append] at hlength
  rw [Place.of, hstart]
  dsimp only
  omega

theorem Place.isAt_of_mem (h : ⟨i, b⟩ ∈ braces t) : (Place.of t i).IsAt t i := by
  obtain ⟨hlt, -⟩ := List.getElem?_eq_some_iff.1 (getElem?_of_mem_braces h)
  exact isAt_of (Nat.le_of_lt hlt)

theorem partners_iff (h : braces t = as ++ ⟨i, .opening⟩ :: cs) :
    Partners t i j ↔ closeAfter 1 cs = some j := by
  have hmem : ⟨i, .opening⟩ ∈ braces t := by
    rw [h]
    simp
  rw [Partners, closeOf_eq_ok_iff h]
  exact and_iff_right hmem

theorem Partners.exists_braces (h : Partners t i j) :
    ∃ as cs, braces t = as ++ ⟨i, .opening⟩ :: cs ∧ closeAfter 1 cs = some j := by
  obtain ⟨as, cs, hsplit⟩ := List.append_of_mem h.1
  exact ⟨as, cs, hsplit, (partners_iff hsplit).1 h⟩

theorem Partners.mem_closing (h : Partners t i j) : i < j ∧ ⟨j, .closing⟩ ∈ braces t := by
  obtain ⟨as, cs, hsplit, hclose⟩ := h.exists_braces
  have hmem := mem_of_closeAfter hclose
  have hsorted := pairwise_braces t
  rw [hsplit, List.pairwise_append, List.pairwise_cons] at hsorted
  refine ⟨hsorted.2.1.1 _ hmem, ?_⟩
  rw [hsplit]
  simp [hmem]

/-- **Pairs are nested or disjoint**, in every text. -/
theorem Partners.nested {l : Nat} (h : Partners t i j) (h' : Partners t k l) (hik : i < k) :
    j < k ∨ l < j := by
  obtain ⟨as, cs, hsplit, hclose⟩ := h.exists_braces
  have hsorted := pairwise_braces t
  rw [hsplit, List.pairwise_append, List.pairwise_cons] at hsorted
  -- the brace that comes later is behind the other one
  have hmem : ⟨k, .opening⟩ ∈ cs := by
    have hmem := h'.1
    rw [hsplit, List.mem_append, List.mem_cons] at hmem
    rcases hmem with hmem | heq | hmem
    · have := hsorted.2.2 _ hmem _ List.mem_cons_self
      dsimp only at this
      omega
    · cases heq
      omega
    · exact hmem
  obtain ⟨between, behind, rfl⟩ := List.append_of_mem hmem
  have hcs := hsorted.2.1.2
  rw [List.pairwise_append, List.pairwise_cons] at hcs
  rw [List.append_cons, ← List.append_assoc] at hsplit
  have hclose' := (partners_iff hsplit).1 h'
  cases hfirst : closeAfter 1 between with
  | some m =>
    rw [closeAfter_append_of_some hfirst] at hclose
    cases hclose
    exact .inl (hcs.2.2 _ (mem_of_closeAfter hfirst) _ List.mem_cons_self)
  | none =>
    obtain ⟨m, hm⟩ := exists_closeAfter_append hfirst (⟨k, .opening⟩ :: behind)
    rw [hm, closeAfter] at hclose
    exact .inr (lt_of_closeAfter hcs.2.1.2 (Nat.zero_lt_succ m) hclose' hclose)

theorem Partners.unique (h : Partners t i j) (h' : Partners t k j) : i = k := by
  rcases Nat.lt_trichotomy i k with hlt | heq | hlt
  · have := h.nested h' hlt
    have := h'.mem_closing.1
    omega
  · exact heq
  · have := h'.nested h hlt
    have := h.mem_closing.1
    omega

theorem lonely_eq (h : braces t = as ++ bs) :
    lonely bs = (bs.filter (isUnclosed t)).map (·.index) := by
  induction bs generalizing as with
  | nil => rfl
  | cons e bs ih =>
    have hrest := @ih (as ++ [e]) (by rw [h, List.append_cons])
    obtain ⟨i, b⟩ := e
    cases b with
    | closing =>
      rw [lonely, hrest, List.filter_cons_of_neg (by simp [isUnclosed])]
    | opening =>
      rw [lonely, hrest]
      cases hclose : closeAfter 1 bs with
      | none =>
        have hnot : (closeOf t i).isOk = false := by
          rw [closeOf_of_braces h, hclose]
          rfl
        rw [if_pos rfl, List.filter_cons_of_pos (by simp [isUnclosed, hnot])]
        rfl
      | some j =>
        have hok : (closeOf t i).isOk = true := by
          rw [closeOf_of_braces h, hclose]
          rfl
        rw [if_neg (by simp), List.filter_cons_of_neg (by simp [isUnclosed, hok])]

theorem lonely_braces (t : Text) : lonely (braces t) = (unclosed t).map (·.index) :=
  @lonely_eq t [] _ rfl

/-- If nothing is left of an empty stack, every brace that was opened has a partner among those that
were read. -/
theorem exists_closeAfter (h : openBlocks [] (as ++ ⟨i, .opening⟩ :: cs) = .ok []) :
    ∃ j, closeAfter 1 cs = some j := by
  obtain ⟨kept, hkept, hfinal, -⟩ := openBlocks_eq h
  obtain rfl := List.suffix_nil.1 hkept
  rw [List.append_nil, eq_comm, List.reverse_eq_nil_iff] at hfinal
  clear h hkept
  cases hclose : closeAfter 1 cs with
  | some j => exact ⟨j, rfl⟩
  | none =>
    induction as with
    | nil =>
      rw [List.nil_append, lonely, if_pos hclose] at hfinal
      cases hfinal
    | cons e as ih =>
      obtain ⟨k, b⟩ := e
      cases b with
      | closing => exact ih hfinal
      | opening =>
        rw [List.cons_append, lonely] at hfinal
        split at hfinal
        · cases hfinal
        · exact ih hfinal

/-- If nothing is left of an empty stack, every closing brace that was read has a partner. -/
theorem exists_partners (h : openBlocks [] as = .ok final) (hbraces : braces t = as ++ cs)
    (hj : ⟨j, .closing⟩ ∈ as) : ∃ i, Partners t i j := by
  rcases exists_opening h hj with ⟨p, hp, -⟩ | ⟨before, i, behind, rfl, hclose⟩
  · cases hp
  · rw [List.append_assoc, List.cons_append] at hbraces
    exact ⟨i, (partners_iff hbraces).2 (closeAfter_append_of_some hclose cs)⟩

theorem paired_of_openBlocks (h : openBlocks [] (braces t) = .ok []) : Paired t where
  closed := by
    intro i hi
    obtain ⟨as, cs, hsplit⟩ := List.append_of_mem hi
    rw [hsplit] at h
    obtain ⟨j, hclose⟩ := exists_closeAfter h
    have hpartners := (partners_iff hsplit).2 hclose
    obtain ⟨hlt, hmem⟩ := hpartners.mem_closing
    exact ⟨j, hlt, hmem, hpartners⟩
  opened := by
    intro j hj
    obtain ⟨i, hi⟩ := exists_partners h (List.append_nil _).symm hj
    exact ⟨i, hi, fun k hk => hk.unique hi⟩
  nested := fun _ _ _ _ h h' hlt => h.nested h' hlt

/-- A brace that is unexpected is no partner. -/
theorem not_partners_of_openBlocks (h : openBlocks [] as = .ok [])
    (hbraces : braces t = as ++ ⟨j, .closing⟩ :: cs) (i : Nat) : ¬ Partners t i j := by
  intro hpartners
  have hlt := hpartners.mem_closing.1
  have hsorted := pairwise_braces t
  rw [hbraces, List.pairwise_append, List.pairwise_cons] at hsorted
  have hmem : ⟨i, .opening⟩ ∈ as := by
    have hmem := hpartners.1
    rw [hbraces, List.mem_append, List.mem_cons] at hmem
    rcases hmem with hmem | heq | hmem
    · exact hmem
    · cases heq
    · have := hsorted.2.1.1 _ hmem
      dsimp only at this
      omega
  -- its partner is among those that precede the unexpected brace
  obtain ⟨before, behind, rfl⟩ := List.append_of_mem hmem
  obtain ⟨k, hclose⟩ := exists_closeAfter h
  rw [List.append_assoc, List.cons_append] at hbraces
  have hsame := (partners_iff hbraces).1 hpartners
  rw [closeAfter_append_of_some hclose] at hsame
  cases hsame
  have hmem : ⟨j, .closing⟩ ∈ before ++ ⟨i, .opening⟩ :: behind := by
    simp [mem_of_closeAfter hclose]
  exact Nat.lt_irrefl _ (hsorted.2.2 _ hmem _ List.mem_cons_self)

/-- **The check of a text agrees with the search for partners.** -/
theorem balance_spec (t : Text) :
    match balance t with
    | .ok () => Paired t
    | .error (.unclosed n p) => n = (unclosed t).length ∧
        ∃ e, (unclosed t).head? = some e ∧ p.IsAt t e.index
    | .error (.unexpected p) => ∃ j, ⟨j, .closing⟩ ∈ braces t ∧ (∀ i, ¬ Partners t i j) ∧
        (∀ k < j, ⟨k, .closing⟩ ∈ braces t → ∃ i, Partners t i k) ∧ p.IsAt t j
    | .error (.noOpening _) => False
    | .error (.neverClosed _) => False := by
  unfold balance
  cases hblocks : openBlocks [] (braces t) with
  | error j =>
    obtain ⟨as, cs, hbraces, hopen⟩ := exists_of_openBlocks_eq_error hblocks
    have hmem : ⟨j, .closing⟩ ∈ braces t := by
      rw [hbraces]
      simp
    refine ⟨j, hmem, not_partners_of_openBlocks hopen hbraces, fun k hk hk' => ?_,
      Place.isAt_of_mem hmem⟩
    refine exists_partners hopen hbraces ?_
    have hsorted := pairwise_braces t
    rw [hbraces, List.pairwise_append, List.pairwise_cons] at hsorted
    rw [hbraces, List.mem_append, List.mem_cons] at hk'
    rcases hk' with hk' | heq | hk'
    · exact hk'
    · cases heq
      omega
    · have := hsorted.2.1.1 _ hk'
      dsimp only at this
      omega
  | ok final =>
    obtain ⟨kept, hkept, hfinal, -⟩ := openBlocks_eq hblocks
    obtain rfl := List.suffix_nil.1 hkept
    rw [List.append_nil, lonely_braces] at hfinal
    dsimp only
    rw [hfinal, List.getLast?_reverse, List.length_reverse, List.length_map, List.head?_map]
    cases hhead : (unclosed t).head? with
    | none =>
      rw [List.head?_eq_none_iff.1 hhead] at hfinal
      rw [hfinal] at hblocks
      exact paired_of_openBlocks hblocks
    | some e =>
      have hmem : e ∈ braces t := (List.mem_filter.1 (List.mem_of_head? hhead)).1
      exact ⟨rfl, e, rfl, Place.isAt_of_mem hmem⟩

end Graft
