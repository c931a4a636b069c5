import Graft.Proofs.Text.Lines

/-!
# Occurrences of a pattern

A pattern occurs in a text when it is an infix of it (`contains_iff`). The search for the first one
can be taken through a text part by part: over characters that the pattern does not start with
(`search_append`), and over whole lines, since a pattern without line feeds stays within a line
(`search_line`). Behind the first occurrence the count goes on with the rest of the text
(`count_of_search`).
-/

namespace Graft

namespace Text

variable {p t u v : Text} {c : CodePoint} {i : Nat}

theorem search_eq_none_iff : search p t = none ↔ ¬ p <:+: t := by
  induction t with
  | nil =>
    rw [List.infix_nil, search]
    split
    · next h => simp [List.isEmpty_iff.1 h]
    · next h =>
      simp only [true_iff]
      intro hnil
      exact h (List.isEmpty_iff.2 hnil)
  | cons c r ih =>
    rw [List.infix_cons_iff, not_or, search]
    by_cases h : p.isPrefixOf (c :: r) = true
    · rw [if_pos h]
      simp [List.isPrefixOf_iff_prefix.1 h]
    · rw [if_neg h, Option.map_eq_none_iff, ih]
      exact ⟨fun hr => ⟨fun hp => h (List.isPrefixOf_iff_prefix.2 hp), hr⟩, fun hr => hr.2⟩

theorem contains_iff : t.contains p = true ↔ p <:+: t := by
  rw [contains, Option.isSome_iff_ne_none, Ne, search_eq_none_iff, Classical.not_not]

theorem contains_eq_false_iff : t.contains p = false ↔ search p t = none := by
  rw [contains, Option.isSome_eq_false_iff, Option.isNone_iff_eq_none]

/-- What does not occur in a text does not occur in a part of it. -/
theorem search_eq_none_of_isInfix (h : search p t = none) (hu : u <:+: t) : search p u = none :=
  search_eq_none_iff.2 fun hp => search_eq_none_iff.1 h (hp.trans hu)

theorem search_prefix (p t : Text) : search p (p ++ t) = some 0 := by
  cases h : p ++ t with
  | nil =>
    rw [search, (List.append_eq_nil_iff.1 h).1]
    rfl
  | cons c r =>
    rw [search, ← h, if_pos (List.isPrefixOf_iff_prefix.2 (List.prefix_append p t))]

/-- A pattern is not found among characters other than its first. -/
theorem search_append (h : c ∉ u) (p v : Text) :
    search (c :: p) (u ++ v) = (search (c :: p) v).map (· + u.length) := by
  induction u with
  | nil => simp
  | cons d r ih =>
    rw [List.mem_cons, not_or] at h
    have hne : (c :: p).isPrefixOf (d :: (r ++ v)) = false := by
      rw [List.isPrefixOf, beq_eq_false_iff_ne.2 h.1, Bool.false_and]
    rw [List.cons_append, search, hne, if_neg (by simp), ih h.2, Option.map_map]
    rfl

/-- A prefix without line feeds does not reach beyond the first one. -/
theorem prefix_of_prefix_line (hp : .char '\n' ∉ p) (h : p <+: u ++ .char '\n' :: v) : p <+: u := by
  rcases List.prefix_or_prefix_of_prefix h (List.prefix_append u _) with hpu | ⟨w, rfl⟩
  · exact hpu
  · -- what goes beyond would start with the line feed
    have hw := (List.prefix_append_right_inj u).1 h
    cases w with
    | nil =>
      exact ⟨[], by simp⟩
    | cons d w =>
      obtain ⟨rfl, -⟩ := List.cons_prefix_cons.1 hw
      simp at hp

/-- A pattern without line feeds is found within a line. -/
theorem search_line (hp : .char '\n' ∉ p) (h : search p u = none) (v : Text) :
    search p (u ++ .char '\n' :: v) = (search p v).map (· + (u.length + 1)) := by
  have hnot : ∀ w, search p w = none → ¬ p.isPrefixOf (w ++ .char '\n' :: v) = true := by
    intro w hw hprefix
    have hpw := prefix_of_prefix_line hp (List.isPrefixOf_iff_prefix.1 hprefix)
    exact search_eq_none_iff.1 hw hpw.isInfix
  induction u with
  | nil =>
    have := hnot [] h
    rw [List.nil_append] at this ⊢
    rw [search, if_neg this]
    rfl
  | cons c r ih =>
    have hr : search p r = none := search_eq_none_of_isInfix h (List.suffix_cons c r).isInfix
    have := hnot (c :: r) h
    rw [List.cons_append] at this ⊢
    rw [search, if_neg this, ih hr, Option.map_map]
    rfl

/-- Beyond lines without a pattern, and characters other than its first, the search for it goes
on. -/
theorem search_beyond_line (hp : .char '\n' ∉ c :: p) (ht : search (c :: p) t = none) (hu : c ∉ u)
    (v : Text) : search (c :: p) (t ++ .char '\n' :: (u ++ v)) =
      (search (c :: p) v).map (· + (t.length + 1 + u.length)) := by
  rw [search_line hp ht, search_append hu, Option.map_map]
  congr 1
  funext i
  simp only [Function.comp_apply]
  omega

/-- A pattern that ends with no blank does not reach into blanks at the end. -/
theorem search_append_blanks (hlast : p.getLast? = some c) (hc : isBlank c = false)
    (hu : allBlank u = true) (h : search p t = none) : search p (t ++ u) = none := by
  obtain ⟨q, rfl⟩ := List.getLast?_eq_some_iff.1 hlast
  have hmem : c ∉ u.reverse := by
    rw [List.mem_reverse]
    exact not_mem_of_allBlank hc hu
  have hback : search (c :: q.reverse) t.reverse = none := by
    rw [search_eq_none_iff] at h ⊢
    rw [← List.reverse_infix, List.reverse_append] at h
    exact h
  -- read from the end, the blanks come first
  rw [search_eq_none_iff, ← List.reverse_infix, List.reverse_append, List.reverse_append,
    ← search_eq_none_iff]
  show search (c :: q.reverse) _ = none
  rw [search_append hmem, hback]
  rfl

/-- Lines without a pattern can be put before a text without it. -/
theorem search_append_lines (hp : .char '\n' ∉ p) (hu : u = [] ∨ u.getLast? = some (.char '\n'))
    (hsearch : search p u = none) (hv : search p v = none) : search p (u ++ v) = none := by
  rcases hu with rfl | hu
  · exact hv
  · obtain ⟨w, rfl⟩ := List.getLast?_eq_some_iff.1 hu
    have hw := search_eq_none_of_isInfix hsearch (List.prefix_append w [.char '\n']).isInfix
    rw [List.append_assoc]
    show search p (w ++ .char '\n' :: v) = none
    rw [search_line hp hw, hv]
    rfl

/-- A pattern without line feeds that is in none of some lines is not in all of them together. -/
theorem search_flatMap (hp : .char '\n' ∉ p) (hne : p ≠ []) {ls : List Text}
    (h : ∀ l ∈ ls, search p l = none) : search p (ls.flatMap (.char '\n' :: ·)) = none := by
  have hnil : search p [] = none := by
    rw [search, if_neg (by simpa using hne)]
  have hfeed : ∀ v, search p v = none → search p (.char '\n' :: v) = none := by
    intro v hv
    rw [← List.nil_append (.char '\n' :: v), search_line hp hnil, hv]
    rfl
  induction ls with
  | nil => exact hnil
  | cons l ls ih =>
    obtain ⟨hl, hls⟩ := List.forall_mem_cons.1 h
    rw [List.flatMap_cons]
    apply hfeed
    cases ls with
    | nil => simpa using hl
    | cons m ms =>
      have hrest := ih hls
      rw [List.flatMap_cons, List.cons_append] at hrest ⊢
      show search p (l ++ .char '\n' :: (m ++ ms.flatMap (CodePoint.char '\n' :: ·))) = none
      rw [search_line hp hl,
        search_eq_none_of_isInfix hrest (List.suffix_cons (CodePoint.char '\n') _).isInfix]
      rfl

/-- What has no line feed in it ends on the line it starts on. -/
theorem add_length_le_lineEnd (hp : .char '\n' ∉ p) (h : p <+: t.drop i) :
    i + p.length ≤ lineEnd t i := by
  obtain ⟨rest, hrest⟩ := h
  rw [lineEnd, ← hrest, List.takeWhile_append_of_pos, List.length_append]
  · omega
  · intro c hc
    simpa using fun heq : c = .char '\n' => hp (heq ▸ hc)

/-- Before its first occurrence, a pattern does not occur. -/
theorem search_take (hne : p ≠ []) (h : search p t = some i) : search p (t.take i) = none := by
  induction t generalizing i with
  | nil =>
    rw [List.take_nil, search, if_neg (by simpa using hne)]
  | cons c r ih =>
    unfold search at h
    split at h
    · cases h
      rw [List.take_zero, search, if_neg (by simpa using hne)]
    · next hprefix =>
      obtain ⟨j, hj, rfl⟩ := Option.map_eq_some_iff.1 h
      have hnot : ¬ p.isPrefixOf (c :: r.take j) = true := by
        rw [List.isPrefixOf_iff_prefix] at hprefix ⊢
        exact fun hp => hprefix (hp.trans (List.take_prefix (j + 1) (c :: r)))
      rw [List.take_succ_cons, search, if_neg hnot, ih hj]
      rfl

/-! ## Counting -/

theorem countSkipping_append (p t u : Text) : countSkipping p t.length (t ++ u) =
    countSkipping p 0 u := by
  induction t with
  | nil => rfl
  | cons c r ih => exact ih

/-- Counting finds the first occurrence and goes on behind it. -/
theorem count_of_search (hne : p ≠ []) (h : search p t = some i) :
    count p t = 1 + count p (t.drop (i + p.length)) := by
  rw [count, count, if_neg (by simpa using hne), if_neg (by simpa using hne)]
  induction t generalizing i with
  | nil =>
    rw [search, if_neg (by simpa using hne)] at h
    cases h
  | cons c r ih =>
    unfold search at h
    rw [countSkipping]
    split at h
    · next hprefix =>
      cases h
      rw [if_pos hprefix]
      -- what is passed over is the rest of the occurrence
      obtain ⟨rest, hrest⟩ := List.isPrefixOf_iff_prefix.1 hprefix
      cases p with
      | nil => exact absurd rfl hne
      | cons d q =>
        rw [List.cons_append, List.cons.injEq] at hrest
        obtain ⟨rfl, rfl⟩ := hrest
        rw [Nat.zero_add, List.length_cons, Nat.add_sub_cancel, countSkipping_append,
          List.drop_succ_cons, List.drop_left]
    · next hprefix =>
      obtain ⟨j, hj, rfl⟩ := Option.map_eq_some_iff.1 h
      rw [if_neg hprefix, ih hj, Nat.add_right_comm]
      rfl

end Text

end Graft
