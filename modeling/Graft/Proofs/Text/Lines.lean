import Graft.Proofs.Text.Blank

/-!
# Lines and where they start and end

What precedes a place on its line has no line feed in it, and the line starts at the start of the
text or behind a line feed (`exists_lineStart`). The same holds towards the end of the line
(`exists_lineEnd`). A first line and the lines below it are the text before its first line feed and
the lines of the text behind it (`splitLines_eq_cons`).
-/

namespace Graft

namespace Text

variable {p t : Text} {c : CodePoint} {i j : Nat}

/-! ## Searching -/

theorem prefix_of_search (h : search p t = some i) : p <+: t.drop i := by
  induction t generalizing i with
  | nil =>
    unfold search at h
    split at h
    · next hp =>
      rw [List.isEmpty_iff.1 hp]
      exact List.nil_prefix
    · cases h
  | cons c r ih =>
    unfold search at h
    split at h
    · next hp =>
      cases h
      exact List.isPrefixOf_iff_prefix.1 hp
    · obtain ⟨j, hj, rfl⟩ := Option.map_eq_some_iff.1 h
      exact ih hj

theorem prefix_of_searchFrom {pos : Nat} (h : searchFrom p t pos = some i) :
    pos ≤ i ∧ p <+: t.drop i := by
  unfold searchFrom at h
  split at h
  · obtain ⟨j, hj, rfl⟩ := Option.map_eq_some_iff.1 h
    have hprefix := prefix_of_search hj
    rw [List.drop_drop] at hprefix
    exact ⟨Nat.le_add_left _ _, by rwa [Nat.add_comm j pos]⟩
  · cases h

/-- Something that is not empty is found before the end. -/
theorem lt_length_of_prefix_drop (hp : p ≠ []) (h : p <+: t.drop i) : i < t.length := by
  have hlength := h.length_le
  rw [List.length_drop] at hlength
  have := List.length_pos_iff.2 hp
  omega

/-! ## Cuts -/

theorem slice_append_drop (hij : i ≤ j) (t : Text) : slice t i j ++ t.drop j = t.drop i := by
  have hdrop : t.drop j = (t.drop i).drop (j - i) := by
    rw [List.drop_drop, Nat.add_sub_cancel' hij]
  rw [slice, List.drop_take, hdrop, List.take_append_drop]

theorem take_append_slice (hij : i ≤ j) (t : Text) : t.take i ++ slice t i j = t.take j := by
  have htake : t.take i = (t.take j).take i := by rw [List.take_take, Nat.min_eq_left hij]
  rw [slice, htake, List.take_append_drop]

theorem length_slice (hj : j ≤ t.length) : (slice t i j).length = j - i := by
  rw [slice, List.length_drop, List.length_take, Nat.min_eq_left hj]

theorem getElem?_slice {k : Nat} (t : Text) (i j : Nat) :
    (slice t i j)[k]? = if i + k < j then t[i + k]? else none := by
  rw [slice, List.getElem?_drop, List.getElem?_take]

/-! ## The line around a place -/

/-- What precedes a place is other lines and the start of its own. -/
theorem exists_lineStart (t : Text) (i : Nat) : ∃ above line, t.take i = above ++ line ∧
    lineStart t i = above.length ∧ .char '\n' ∉ line ∧
    (above = [] ∨ above.getLast? = some (.char '\n')) := by
  refine ⟨((t.take i).reverse.dropWhile (· ≠ .char '\n')).reverse,
    ((t.take i).reverse.takeWhile (· ≠ .char '\n')).reverse, ?_, ?_, ?_, ?_⟩
  · rw [← List.reverse_append, List.takeWhile_append_dropWhile, List.reverse_reverse]
  · have hlength := congrArg List.length
      (List.takeWhile_append_dropWhile (p := (· ≠ .char '\n')) (l := (t.take i).reverse))
    rw [List.length_append, List.length_reverse] at hlength
    rw [lineStart, List.length_reverse]
    omega
  · rw [List.mem_reverse]
    intro hmem
    have := List.all_eq_true.1 List.all_takeWhile _ hmem
    simp at this
  · rw [List.getLast?_reverse, List.reverse_eq_nil_iff]
    cases hd : (t.take i).reverse.dropWhile (· ≠ .char '\n') with
    | nil => exact .inl rfl
    | cons c r =>
      have hne : (t.take i).reverse.dropWhile (· ≠ .char '\n') ≠ [] := by
        rw [hd]
        simp
      have hc := List.head_dropWhile_not (p := (· ≠ .char '\n')) (l := (t.take i).reverse) hne
      simp only [hd, List.head_cons] at hc
      right
      simpa using hc

theorem lineStart_le (t : Text) (i : Nat) : lineStart t i ≤ i := by
  obtain ⟨above, line, htake, hstart, -, -⟩ := exists_lineStart t i
  have hlength := congrArg List.length htake
  rw [List.length_append, List.length_take] at hlength
  omega

/-- Behind a line feed a new line starts. -/
theorem lineStart_append {y m : Text} (hy : y = [] ∨ y.getLast? = some (.char '\n'))
    (hm : .char '\n' ∉ m) (w : Text) :
    lineStart ((y ++ m) ++ w) (y ++ m).length = y.length := by
  have hall : ∀ c ∈ m.reverse, (c ≠ .char '\n' : Bool) = true := by
    intro c hc
    rw [decide_eq_true_eq]
    rintro rfl
    exact hm (List.mem_reverse.1 hc)
  have hnone : y.reverse.takeWhile (· ≠ .char '\n') = [] := by
    rcases hy with rfl | hy
    · rfl
    · obtain ⟨r, rfl⟩ := List.getLast?_eq_some_iff.1 hy
      rw [List.reverse_append]
      rfl
  rw [lineStart, List.take_left, List.reverse_append, List.takeWhile_append_of_pos hall, hnone]
  simp

theorem lt_lineStart (hj : t[j]? = some (.char '\n')) (hji : j < i) : j < lineStart t i := by
  obtain ⟨above, line, htake, hstart, hline, -⟩ := exists_lineStart t i
  rw [hstart]
  apply Nat.lt_of_not_le
  intro hle
  -- the line feed would stand on the line itself
  have hget : (t.take i)[j]? = some (.char '\n') := by rw [List.getElem?_take, if_pos hji, hj]
  rw [htake, List.getElem?_append_right hle] at hget
  exact hline (List.mem_of_getElem? hget)

theorem le_lineEnd (t : Text) (i : Nat) : i ≤ lineEnd t i :=
  Nat.le_add_right ..

/-- What follows a place is the end of its line and other lines. -/
theorem exists_lineEnd (t : Text) (i : Nat) : ∃ line below, t.drop i = line ++ below ∧
    lineEnd t i = i + line.length ∧ .char '\n' ∉ line ∧
    (below = [] ∨ below.head? = some (.char '\n')) := by
  refine ⟨(t.drop i).takeWhile (· ≠ .char '\n'), (t.drop i).dropWhile (· ≠ .char '\n'),
    List.takeWhile_append_dropWhile.symm, rfl, ?_, ?_⟩
  · intro hmem
    have := List.all_eq_true.1 List.all_takeWhile _ hmem
    simp at this
  · cases hd : (t.drop i).dropWhile (· ≠ .char '\n') with
    | nil => exact .inl rfl
    | cons c r =>
      have hne : (t.drop i).dropWhile (· ≠ .char '\n') ≠ [] := by
        rw [hd]
        simp
      have hc := List.head_dropWhile_not (p := (· ≠ .char '\n')) (l := t.drop i) hne
      simp only [hd, List.head_cons] at hc
      right
      simpa using hc

/-- A line starts at an index. -/
def StartsLine (t : Text) (i : Nat) : Prop :=
  i = 0 ∨ t[i - 1]? = some (.char '\n')

theorem slice_succ (hij : i ≤ j) (hj : t[j]? = some c) : slice t i (j + 1) = slice t i j ++ [c] := by
  obtain ⟨hlt, -⟩ := List.getElem?_eq_some_iff.1 hj
  rw [slice, slice, List.take_add_one, hj, List.drop_append_of_le_length]
  · rfl
  · rw [List.length_take]
    omega

/-- Nothing ends before the start of a line but other lines. -/
theorem StartsLine.slice_eq (h : StartsLine t j) (i : Nat) :
    slice t i j = [] ∨ (slice t i j).getLast? = some (.char '\n') := by
  by_cases hij : i < j
  · right
    rcases h with rfl | h
    · omega
    · rw [show j = j - 1 + 1 by omega, slice_succ (by omega) h, List.getLast?_concat]
  · left
    rw [slice, List.drop_eq_nil_iff, List.length_take]
    omega

theorem startsLine_lineStart (t : Text) (i : Nat) : StartsLine t (lineStart t i) := by
  obtain ⟨above, line, htake, hstart, -, rfl | hlast⟩ := exists_lineStart t i
  · exact .inl hstart
  · right
    have hget : (t.take i)[lineStart t i - 1]? = some (.char '\n') := by
      rw [htake, hstart, List.getElem?_append_left, ← List.getLast?_eq_getElem?, hlast]
      have hpos : above ≠ [] := by
        rintro rfl
        cases hlast
      have := List.length_pos_iff.2 hpos
      omega
    rw [List.getElem?_take] at hget
    split at hget
    · exact hget
    · cases hget

/-- Nothing but indentation is left of the line that a text starts on. -/
def OpensIndented (t : Text) : Prop :=
  (t.takeWhile (· ≠ .char '\n')).all isIndent = true

theorem OpensIndented.of_append {u : Text} (h : OpensIndented (t ++ u)) : OpensIndented t := by
  unfold OpensIndented at h ⊢
  rw [List.takeWhile_append] at h
  split at h
  · next hall =>
    rw [List.all_append, Bool.and_eq_true_iff] at h
    rw [(List.takeWhile_prefix _).eq_of_length hall]
    exact h.1
  · exact h

theorem OpensIndented.append (h : OpensIndented t) (u : Text) :
    OpensIndented (t ++ .char '\n' :: u) := by
  unfold OpensIndented at h ⊢
  rw [List.takeWhile_append]
  split
  · next hall =>
    rw [(List.takeWhile_prefix _).eq_of_length hall] at h
    simpa using h
  · exact h

theorem OpensIndented.exists_eq_append (h : OpensIndented t) : ∃ sp z, t = sp ++ z ∧
    sp.all isIndent = true ∧ (z = [] ∨ ∃ r, z = .char '\n' :: r) := by
  refine ⟨t.takeWhile (· ≠ .char '\n'), t.dropWhile (· ≠ .char '\n'),
    List.takeWhile_append_dropWhile.symm, h, ?_⟩
  cases hz : t.dropWhile (· ≠ .char '\n') with
  | nil => exact .inl rfl
  | cons c r =>
    have hc := List.head?_dropWhile_not (p := (· ≠ .char '\n')) (l := t)
    rw [hz] at hc
    right
    exact ⟨r, by simpa using hc⟩

/-! ## Cutting into lines -/

/-- The first piece goes up to the first place where the text is cut. -/
theorem split_eq_cons {sep : CodePoint} {first : Text} {pieces : List Text}
    (h : split sep t = first :: pieces) : sep ∉ first ∧
      ((pieces = [] ∧ t = first) ∨ ∃ rest, t = first ++ sep :: rest ∧ split sep rest = pieces) := by
  induction t generalizing first with
  | nil =>
    cases h
    exact ⟨List.not_mem_nil, .inl ⟨rfl, rfl⟩⟩
  | cons c r ih =>
    unfold split at h
    split at h
    · next hc =>
      cases h
      exact ⟨List.not_mem_nil, .inr ⟨r, by rw [hc]; rfl, rfl⟩⟩
    · next hc =>
      have hsep : ∀ l : Text, sep ∉ l → sep ∉ c :: l := by
        intro l hl hmem
        rcases List.mem_cons.1 hmem with heq | hmem
        · exact hc heq.symm
        · exact hl hmem
      split at h
      · next hnil => exact absurd hnil (split_ne_nil sep r)
      · next l ls hls =>
        cases h
        obtain ⟨hl, ⟨hnil, rfl⟩ | ⟨rest, rfl, hrest⟩⟩ := ih hls
        · exact ⟨hsep _ hl, .inl ⟨hnil, rfl⟩⟩
        · exact ⟨hsep _ hl, .inr ⟨rest, rfl, hrest⟩⟩

theorem splitLines_eq_cons {line : Text} {below : List Text} (h : splitLines t = line :: below) :
    .char '\n' ∉ line ∧ ((below = [] ∧ t = line) ∨
      ∃ rest, t = line ++ .char '\n' :: rest ∧ splitLines rest = below) :=
  split_eq_cons h

theorem splitLines_append {line : Text} (h : .char '\n' ∉ line) (rest : Text) :
    splitLines (line ++ .char '\n' :: rest) = line :: splitLines rest := by
  induction line with
  | nil => rfl
  | cons c r ih =>
    rw [List.mem_cons, not_or] at h
    rw [splitLines] at ih
    rw [List.cons_append, splitLines, split, if_neg fun heq => h.1 heq.symm, ih h.2]

theorem not_mem_of_mem_splitLines {line : Text} (h : line ∈ splitLines t) : .char '\n' ∉ line := by
  induction hlength : t.length using Nat.strongRecOn generalizing t with
  | ind n ih =>
    cases ht : splitLines t with
    | nil => exact absurd ht (splitLines_ne_nil t)
    | cons l ls =>
      rw [ht] at h
      obtain ⟨hl, hrest⟩ := splitLines_eq_cons ht
      rcases List.mem_cons.1 h with rfl | h
      · exact hl
      · obtain ⟨rfl, -⟩ | ⟨rest, rfl, rfl⟩ := hrest
        · cases h
        · rw [List.length_append, List.length_cons] at hlength
          exact ih rest.length (by omega) h rfl

/-- No character of a line breaks it. -/
theorem isLineBreak_of_mem_lines {l : Text} {c : CodePoint} (h : l ∈ lines t) (hc : c ∈ l) :
    isLineBreak c = false := by
  fun_induction lines t generalizing l with
  | case1 => cases h
  | case2 r ih =>
    rcases List.mem_cons.1 h with rfl | h
    · cases hc
    · exact ih h hc
  | case3 x r _ hbreak ih =>
    rcases List.mem_cons.1 h with rfl | h
    · cases hc
    · exact ih h hc
  | case4 x r _ hbreak hnil ih =>
    rw [List.mem_singleton.1 h, List.mem_singleton] at hc
    rw [hc]
    simpa using hbreak
  | case5 x r _ hbreak l' ls hls ih =>
    rw [hls] at ih
    rcases List.mem_cons.1 h with rfl | h
    · rcases List.mem_cons.1 hc with rfl | hc
      · simpa using hbreak
      · exact ih List.mem_cons_self hc
    · exact ih (List.mem_cons_of_mem _ h) hc

/-- Where lines break at line feeds only, and the last one does not, either way of cutting gives the
same lines. -/
theorem lines_eq_splitLines (h : ∀ c ∈ t, isLineBreak c = true → c = .char '\n') (hne : t ≠ [])
    (hlast : t.getLast? ≠ some (.char '\n')) : lines t = splitLines t := by
  induction t with
  | nil => exact absurd rfl hne
  | cons c r ih =>
    have hreturn : c ≠ .char '\r' := by
      rintro rfl
      have := h (.char '\r') List.mem_cons_self (by decide)
      revert this
      decide
    rw [lines.eq_3 _ _ (fun _ heq _ => hreturn heq)]
    cases r with
    | nil =>
      have hc : c ≠ .char '\n' := fun heq => hlast (by rw [heq]; rfl)
      rw [if_neg fun hbreak => hc (h c List.mem_cons_self hbreak), splitLines, split, if_neg hc]
      rfl
    | cons d r =>
      have hrest : lines (d :: r) = splitLines (d :: r) := by
        refine ih (fun e he => h e (List.mem_cons_of_mem c he)) (by simp) ?_
        rwa [List.getLast?_cons_cons] at hlast
      show _ = split (.char '\n') (c :: d :: r)
      rw [hrest, split]
      by_cases hc : c = .char '\n'
      · rw [hc, if_pos rfl, if_pos (by decide)]
        rfl
      · rw [if_neg hc, if_neg fun hbreak => hc (h c List.mem_cons_self hbreak)]
        rfl

/-- A line without line breaks comes first, and the lines behind the line feed after it. -/
theorem lines_append {line : Text} (h : ∀ c ∈ line, isLineBreak c = false) (rest : Text) :
    lines (line ++ .char '\n' :: rest) = line :: lines rest := by
  induction line with
  | nil => rfl
  | cons c r ih =>
    have hc := h c List.mem_cons_self
    have hreturn : c ≠ .char '\r' := by
      rintro rfl
      cases hc
    rw [List.cons_append, lines.eq_3 _ _ (fun _ heq _ => hreturn heq), hc, if_neg (by simp),
      ih fun d hd => h d (List.mem_cons_of_mem c hd)]

theorem lines_of_not_break {line : Text} (h : ∀ c ∈ line, isLineBreak c = false)
    (hne : line ≠ []) : lines line = [line] := by
  induction line with
  | nil => exact absurd rfl hne
  | cons c r ih =>
    have hc := h c List.mem_cons_self
    have hreturn : c ≠ .char '\r' := by
      rintro rfl
      cases hc
    rw [lines.eq_3 _ _ (fun _ heq _ => hreturn heq), hc, if_neg (by simp)]
    cases r with
    | nil => rfl
    | cons d r => rw [ih (fun e he => h e (List.mem_cons_of_mem c he)) (by simp)]

/-- Lines that are joined are read again, if none is empty. -/
theorem lines_join {ls : List Text} (h : ∀ l ∈ ls, l ≠ [] ∧ ∀ c ∈ l, isLineBreak c = false) :
    lines (join [.char '\n'] ls) = ls := by
  fun_induction join [.char '\n'] ls with
  | case1 => rfl
  | case2 l =>
    obtain ⟨hne, hbreak⟩ := h l List.mem_cons_self
    exact lines_of_not_break hbreak hne
  | case3 l ls hls ih =>
    obtain ⟨-, hbreak⟩ := h l List.mem_cons_self
    rw [List.append_assoc]
    show lines (l ++ .char '\n' :: join [.char '\n'] ls) = _
    rw [lines_append hbreak, ih fun l' hl' => h l' (List.mem_cons_of_mem l hl')]

/-! ## Joining -/

theorem join_cons {l sep : Text} {ls : List Text} (hne : ls ≠ []) :
    join sep (l :: ls) = l ++ (sep ++ join sep ls) := by
  obtain ⟨m, ms, rfl⟩ := List.exists_cons_of_ne_nil hne
  exact List.append_assoc ..

theorem getLast?_join {c : CodePoint} {ls : List Text} (hne : ls ≠ [])
    (h : ∀ l ∈ ls, l.getLast? = some c) (sep : Text) : (join sep ls).getLast? = some c := by
  fun_induction join sep ls with
  | case1 => exact absurd rfl hne
  | case2 l => exact h l List.mem_cons_self
  | case3 l ls hls ih =>
    have hlast := ih (fun hnil => hls hnil) fun l' hl' => h l' (List.mem_cons_of_mem l hl')
    rw [List.getLast?_append, hlast]
    rfl

end Text

end Graft
