import Graft.Fragment.Basic
import Graft.Proofs.Text.Lines

/-!
# Filling templates

A template is literal text and placeholders. Where every placeholder is a name between braces with a
value, and the rest has no dollar signs, filling it replaces the one by the other and never fails
(`Template.fill_source`). The body of a fragment is what comes of it without the line feeds around
it (`Text.trimLineFeeds_flatMap`), and what has to be found by default are its lines, each without
the blanks around it (`Fragment.mem_requiredTexts`).
-/

namespace Graft

/-! ## Templates in pieces -/

namespace Template

variable {value? : Text → Option Text}

/-- A stretch of a template. -/
inductive Piece where
  /-- Text that stays as it is. -/
  | literal (t : Text)
  /-- A name between braces, behind a dollar sign. -/
  | placeholder (name : Text)

namespace Piece

/-- The piece as it stands in the template. -/
def source : Piece → Text
  | literal t => t
  | placeholder name => .char '$' :: .char '{' :: name ++ [.char '}']

/-- What becomes of the piece. -/
def filled (value? : Text → Option Text) : Piece → Text
  | literal t => t
  | placeholder name => (value? name).getD []

/-- A piece that is what it seems: no dollar sign is hidden in it, and its name has a value. -/
def IsFillable (value? : Text → Option Text) : Piece → Prop
  | literal t => .char '$' ∉ t
  | placeholder name =>
    name? Text.isIdentifierPart name = some name ∧ (value? name).isSome = true

end Piece

theorem fillSkipping_length (value? : Text → Option Text) (t rest : Text) (index : Nat) :
    fillSkipping value? t.length index (t ++ rest) =
      fillSkipping value? 0 (index + t.length) rest := by
  induction t generalizing index with
  | nil => rfl
  | cons c r ih =>
    show fillSkipping value? r.length (index + 1) (r ++ rest) = _
    rw [ih, List.length_cons, Nat.add_assoc, Nat.add_comm 1]

/-- Text without dollar signs is taken over. -/
theorem fillSkipping_literal {t : Text} (h : .char '$' ∉ t) (rest : Text) (index : Nat) :
    fillSkipping value? 0 index (t ++ rest) =
      (t ++ ·) <$> fillSkipping value? 0 (index + t.length) rest := by
  induction t generalizing index with
  | nil =>
    show fillSkipping value? 0 index rest = (fun r => r) <$> fillSkipping value? 0 index rest
    generalize fillSkipping value? 0 index rest = result
    cases result <;> rfl
  | cons c r ih =>
    rw [List.mem_cons, not_or] at h
    rw [List.cons_append, fillSkipping, if_neg fun heq => h.1 heq.symm, ih h.2,
      List.length_cons, Nat.add_right_comm index 1, Nat.add_assoc index]
    cases fillSkipping value? 0 (index + (r.length + 1)) rest <;> rfl

/-- A name is read up to where it ends. -/
theorem name?_append {name : Text} (h : name? Text.isIdentifierPart name = some name)
    (rest : Text) : name? Text.isIdentifierPart (name ++ .char '}' :: rest) = some name := by
  cases name with
  | nil => cases h
  | cons c r =>
    rw [name?] at h
    split at h
    · next hc =>
      rw [Option.some.injEq, List.cons.injEq] at h
      have hr : ∀ d ∈ r, Text.isIdentifierPart d = true := by
        intro d hd
        rw [← h.2] at hd
        exact List.all_eq_true.1 List.all_takeWhile d hd
      rw [List.cons_append, name?, if_pos hc, List.takeWhile_append_of_pos hr,
        List.takeWhile_cons_of_neg (by decide), List.append_nil]
    · cases h

theorem placeholder?_braces {name : Text} (h : name? Text.isIdentifierPart name = some name)
    (rest : Text) : placeholder? Text.isIdentifierPart (.char '{' :: (name ++ .char '}' :: rest)) =
      some (name, name.length + 2) := by
  have hclosing : (name ++ .char '}' :: rest)[name.length]? = some (.char '}') := by
    rw [List.getElem?_append_right (Nat.le_refl _), Nat.sub_self]
    rfl
  rw [placeholder?, name?_append h]
  dsimp only
  rw [hclosing, if_pos (by decide)]

theorem fillSkipping_piece {p : Piece} (h : p.IsFillable value?) (rest : Text) (index : Nat) :
    fillSkipping value? 0 index (p.source ++ rest) =
      (p.filled value? ++ ·) <$> fillSkipping value? 0 (index + p.source.length) rest := by
  cases p with
  | literal t => exact fillSkipping_literal h rest index
  | placeholder name =>
    obtain ⟨hname, hvalue⟩ := h
    obtain ⟨value, hvalue⟩ := Option.isSome_iff_exists.1 hvalue
    have hskip := fillSkipping_length value? (.char '{' :: (name ++ [.char '}'])) rest (index + 1)
    have hsize : (.char '{' :: (name ++ [.char '}'])).length = name.length + 2 := by simp
    rw [hsize] at hskip
    have hbraces := placeholder?_braces hname rest
    have hrest : .char '{' :: (name ++ .char '}' :: rest) =
        .char '{' :: (name ++ [.char '}']) ++ rest := by simp
    have hsource : (Piece.placeholder name).source ++ rest =
        .char '$' :: (.char '{' :: (name ++ [.char '}']) ++ rest) := rfl
    have hlength : (Piece.placeholder name).source.length = name.length + 3 := by
      simp [Piece.source]
    rw [hrest] at hbraces
    rw [hsource, fillSkipping, if_pos rfl, if_neg (by rw [List.cons_append]; simp), hbraces]
    dsimp only
    rw [hvalue]
    dsimp only
    rw [hskip, Piece.filled, hvalue, Option.getD_some, hlength, Nat.add_assoc index,
      Nat.add_comm 1, Nat.add_assoc]

/-- A template in fillable pieces is filled piece by piece. -/
theorem fill_source {ps : List Piece} (h : ∀ p ∈ ps, p.IsFillable value?) :
    fill value? (ps.flatMap Piece.source) = .ok (ps.flatMap (Piece.filled value?)) := by
  have hfrom : ∀ index, fillSkipping value? 0 index (ps.flatMap Piece.source) =
      .ok (ps.flatMap (Piece.filled value?)) := by
    induction ps with
    | nil => exact fun _ => rfl
    | cons p ps ih =>
      intro index
      rw [List.flatMap_cons, fillSkipping_piece (h p List.mem_cons_self),
        ih fun q hq => h q (List.mem_cons_of_mem p hq)]
      rfl
  exact hfrom 0

end Template

/-! ## Bodies -/

namespace Text

variable {t u : Text} {p : CodePoint → Bool} {c d : CodePoint}

theorem dropRight_append (ht : ∀ c, t.getLast? = some c → p c = false) (hu : u.all p = true) :
    dropRight p (t ++ u) = t := by
  have hall : ∀ c ∈ u.reverse, p c = true :=
    fun c hc => List.all_eq_true.1 hu c (List.mem_reverse.1 hc)
  rw [dropRight, List.reverse_append, List.dropWhile_append_of_pos hall]
  rw [← List.head?_reverse] at ht
  cases hr : t.reverse with
  | nil =>
    rw [List.reverse_eq_nil_iff.1 hr]
    rfl
  | cons e r =>
    rw [hr] at ht
    rw [List.dropWhile_cons_of_neg (by simp [ht e rfl]), ← hr, List.reverse_reverse]

theorem flatMap_lineFeed {ls : List Text} (hne : ls ≠ []) :
    ls.flatMap (· ++ [.char '\n']) = join [.char '\n'] ls ++ [.char '\n'] := by
  fun_induction join [.char '\n'] ls with
  | case1 => exact absurd rfl hne
  | case2 l => rw [List.flatMap_cons, List.flatMap_nil, List.append_nil]
  | case3 l ls hls ih =>
    rw [List.flatMap_cons, ih fun hnil => hls hnil, List.append_assoc _ _ [CodePoint.char '\n']]

/-- Joined lines neither start nor end with a line feed, as none of them does. -/
theorem ends_of_join {ls : List Text} (hne : ls ≠ []) (h : ∀ l ∈ ls, l ≠ [] ∧ .char '\n' ∉ l) :
    (∃ c r, join [.char '\n'] ls = c :: r ∧ c ≠ .char '\n') ∧
      ∀ d, (join [.char '\n'] ls).getLast? = some d → d ≠ .char '\n' := by
  fun_induction join [.char '\n'] ls with
  | case1 => exact absurd rfl hne
  | case2 l =>
    obtain ⟨hl, hbreak⟩ := h l List.mem_cons_self
    obtain ⟨c, r, rfl⟩ := List.exists_cons_of_ne_nil hl
    refine ⟨⟨c, r, rfl, ?_⟩, ?_⟩
    · rintro rfl
      exact hbreak List.mem_cons_self
    · rintro d hd rfl
      exact hbreak (List.mem_of_getLast? hd)
  | case3 l ls hls ih =>
    obtain ⟨hl, hbreak⟩ := h l List.mem_cons_self
    obtain ⟨c, r, rfl⟩ := List.exists_cons_of_ne_nil hl
    obtain ⟨⟨d, u, hjoin, -⟩, hlast⟩ :=
      ih (fun hnil => hls hnil) fun l' hl' => h l' (List.mem_cons_of_mem _ hl')
    refine ⟨⟨c, _, rfl, ?_⟩, ?_⟩
    · rintro rfl
      exact hbreak List.mem_cons_self
    · have hne' : join [.char '\n'] ls ≠ [] := by
        rw [hjoin]
        simp
      rw [List.getLast?_append, List.getLast?_eq_some_getLast hne', Option.some_or,
        ← List.getLast?_eq_some_getLast hne']
      exact hlast

/-- Line feeds around a text that neither starts nor ends with one are taken off, and no more. -/
theorem trimLineFeeds_append {a b : Text} (ha : a.all (· == .char '\n') = true)
    (hb : b.all (· == .char '\n') = true) (hc : c ≠ .char '\n') (ht : t = c :: u)
    (hlast : ∀ d, t.getLast? = some d → d ≠ .char '\n') : trimLineFeeds (a ++ (t ++ b)) = t := by
  have hfirst : (a ++ (t ++ b)).dropWhile (· == .char '\n') = t ++ b := by
    rw [List.dropWhile_append_of_pos (List.all_eq_true.1 ha), ht, List.cons_append,
      List.dropWhile_cons_of_neg (by simpa using hc)]
  rw [trimLineFeeds, hfirst]
  exact dropRight_append (fun d hd => beq_eq_false_iff_ne.2 (hlast d hd)) hb

/-- What is taken off a text is line feeds, and there are none left at the end. -/
theorem exists_trimLineFeeds (t : Text) : ∃ a b, t = a ++ (trimLineFeeds t ++ b) ∧
    a.all (· == .char '\n') = true ∧ b.all (· == .char '\n') = true ∧
      (trimLineFeeds t).getLast? ≠ some (.char '\n') := by
  have hfirst := List.takeWhile_append_dropWhile (p := (· == .char '\n')) (l := t)
  have hlast := List.takeWhile_append_dropWhile (p := (· == .char '\n'))
    (l := (t.dropWhile (· == .char '\n')).reverse)
  refine ⟨t.takeWhile (· == .char '\n'),
    ((t.dropWhile (· == .char '\n')).reverse.takeWhile (· == .char '\n')).reverse,
    ?_, List.all_takeWhile, ?_, ?_⟩
  · rw [trimLineFeeds, dropRight, ← List.reverse_append, hlast, List.reverse_reverse, hfirst]
  · rw [List.all_reverse]
    exact List.all_takeWhile
  · rw [trimLineFeeds, dropRight, List.getLast?_reverse]
    intro hhead
    have hnot := List.head?_dropWhile_not (p := (· == .char '\n'))
      (l := (t.dropWhile (· == .char '\n')).reverse)
    rw [hhead] at hnot
    simp at hnot

/-- Lines that each end with a line feed are, without the last one, the lines joined. -/
theorem trimLineFeeds_flatMap {ls : List Text} (hne : ls ≠ [])
    (h : ∀ l ∈ ls, l ≠ [] ∧ .char '\n' ∉ l) :
    trimLineFeeds (ls.flatMap (· ++ [.char '\n'])) = join [.char '\n'] ls := by
  obtain ⟨⟨c, r, hjoin, hc⟩, hlast⟩ := ends_of_join hne h
  rw [flatMap_lineFeed hne]
  exact trimLineFeeds_append (a := []) rfl (by decide) hc hjoin hlast

theorem infix_join {l : Text} {ls : List Text} (sep : Text) (h : l ∈ ls) : l <:+: join sep ls := by
  fun_induction join sep ls with
  | case1 => cases h
  | case2 l' =>
    obtain rfl := List.mem_singleton.1 h
    exact List.infix_refl _
  | case3 l' ls hls ih =>
    rcases List.mem_cons.1 h with rfl | h
    · rw [List.append_assoc]
      exact (List.prefix_append _ _).isInfix
    · exact (ih h).trans (List.suffix_append _ _).isInfix

/-- The first line of a text is at its start, and the others are in it. -/
theorem prefix_of_lines {l : Text} {ls : List Text} (h : lines t = l :: ls) :
    l <+: t ∧ ∀ m ∈ ls, m <:+: t := by
  -- every line of what follows a break is a part of it
  have hrest : ∀ r : Text, (∀ {l ls}, lines r = l :: ls → l <+: r ∧ ∀ m ∈ ls, m <:+: r) →
      ∀ m ∈ lines r, m <:+: r := by
    intro r ih m hm
    cases hr : lines r with
    | nil =>
      rw [hr] at hm
      cases hm
    | cons l ls =>
      rw [hr] at hm
      obtain ⟨hl, hls⟩ := ih hr
      rcases List.mem_cons.1 hm with rfl | hm
      · exact hl.isInfix
      · exact hls m hm
  fun_induction lines t generalizing l ls with
  | case1 => cases h
  | case2 r ih =>
    cases h
    exact ⟨List.nil_prefix, fun m hm =>
      (hrest r ih m hm).trans (List.suffix_append [CodePoint.char '\r', .char '\n'] r).isInfix⟩
  | case3 c r _ hbreak ih =>
    cases h
    exact ⟨List.nil_prefix, fun m hm => (hrest r ih m hm).trans (List.suffix_cons c r).isInfix⟩
  | case4 c r _ hbreak hnil ih =>
    cases h
    exact ⟨⟨r, rfl⟩, fun m hm => by cases hm⟩
  | case5 c r _ hbreak l' ls' hls ih =>
    cases h
    obtain ⟨hl, hm⟩ := ih hls
    exact ⟨List.cons_prefix_cons.2 ⟨rfl, hl⟩,
      fun m hmem => (hm m hmem).trans (List.suffix_cons c r).isInfix⟩

/-- Every line of a text is a part of it. -/
theorem infix_of_mem_lines {l : Text} (h : l ∈ lines t) : l <:+: t := by
  cases ht : lines t with
  | nil =>
    rw [ht] at h
    cases h
  | cons m ms =>
    rw [ht] at h
    obtain ⟨hm, hms⟩ := prefix_of_lines ht
    rcases List.mem_cons.1 h with rfl | h
    · exact hm.isInfix
    · exact hms l h

theorem trim_infix (t : Text) : trim t <:+: t := by
  have hright : ∀ u : Text, trimRight u <+: u := by
    intro u
    obtain ⟨b, hb, -⟩ := exists_trimRight_append u
    exact ⟨b, hb.symm⟩
  exact (hright _).isInfix.trans (List.dropWhile_suffix _).isInfix

end Text

/-- By default, what must be found of a fragment is lines of its body, without the blanks around
them. -/
theorem Fragment.mem_requiredTexts {f : Fragment} {versions : VersionSet} {body text : Text}
    {required : List Text} (hnone : f.required = []) (hbody : f.body versions = .ok body)
    (h : f.requiredTexts versions = .ok required) (htext : text ∈ required) :
    ∃ l ∈ Text.lines body, text = Text.trim l := by
  rw [requiredTexts, hnone, List.isEmpty_nil, if_pos rfl, hbody] at h
  cases h
  obtain ⟨l, hl, rfl⟩ := List.mem_map.1 htext
  exact ⟨l, (List.mem_filter.1 hl).1, rfl⟩

end Graft
