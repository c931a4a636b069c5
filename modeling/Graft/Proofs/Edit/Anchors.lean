import Graft.Proofs.Brace.Reading
import Graft.Proofs.Brace.Scan
import Graft.Proofs.Text.Blank
import Mathlib.Algebra.Ring.Int.Defs

/-!
# Anchors

An anchor is a structural brace with the name of a block before it. Which one is chosen can be told
without the list that is searched: that list holds the anchors in order, each with its depth
(`mem_candidates_iff`), so that the choice falls on the first one at the top level, or on the first of
all if none is there.

> `blockBrace?_eq_some_iff`: which brace is chosen.
> `blockBrace?_append`: the choice depends on what follows the brace only through the depths of the
> anchors there.
-/

namespace Graft

open Text

variable {name t u v b p : Text} {c : CodePoint} {before : Option CodePoint}
  {skip index size i j k : Nat} {bs : List BraceAt} {e : BraceAt} {depth d : Int}

namespace Insertion

/-! ## Names before braces -/

/-- Whether a name that starts behind a character is the end of a longer one. -/
def isJoint (c : CodePoint) : Bool :=
  isWord c || c == .char '.'

/-- At an index of a text there is an opening brace, and before it there are blanks and before them a
name that is not the end of a longer one. The text itself stands behind a character. -/
def Headed (name : Text) (before : Option CodePoint) (t : Text) (k : Nat) : Prop :=
  ∃ p gap r, t = p ++ (name ++ (gap ++ .char '{' :: r)) ∧ allBlank gap = true ∧
    (p.getLast?.or before).any isJoint = false ∧ k = p.length + name.length + gap.length

theorem getElem?_append_length (t : Text) (c : CodePoint) (u : Text) :
    (t ++ c :: u)[t.length]? = some c := by
  rw [List.getElem?_append_right (Nat.le_refl _), Nat.sub_self]
  rfl

theorem headerSize?_eq_some_iff : headerSize? name t = some size ↔
    ∃ gap r, t = name ++ (gap ++ .char '{' :: r) ∧ allBlank gap = true ∧
      size = name.length + gap.length + 1 := by
  constructor
  · intro h
    unfold headerSize? at h
    split at h
    · next hprefix =>
      obtain ⟨rest, rfl⟩ := List.isPrefixOf_iff_prefix.1 hprefix
      rw [List.drop_left] at h
      dsimp only at h
      split at h
      · next hbrace =>
        have hsplit := List.takeWhile_append_dropWhile (p := isBlank) (l := rest)
        generalize hgap : rest.takeWhile isBlank = gap at h hbrace hsplit
        rw [← hsplit, List.getElem?_append_right (Nat.le_refl _), Nat.sub_self,
          ← List.head?_eq_getElem?] at hbrace
        obtain ⟨r, hr⟩ := List.head?_eq_some_iff.1 (eq_of_beq hbrace)
        refine ⟨gap, r, by rw [← hr, hsplit], ?_, (Option.some.inj h).symm⟩
        rw [← hgap]
        exact List.all_takeWhile
      · cases h
    · cases h
  · rintro ⟨gap, r, rfl, hgap, rfl⟩
    have htake : (gap ++ .char '{' :: r).takeWhile isBlank = gap := by
      rw [List.takeWhile_append_of_pos (List.all_eq_true.1 hgap),
        List.takeWhile_cons_of_neg (by decide), List.append_nil]
    rw [headerSize?, if_pos (List.isPrefixOf_iff_prefix.2 (List.prefix_append name _)),
      List.drop_left]
    dsimp only
    rw [htake, List.getElem?_append_right (Nat.le_refl _), Nat.sub_self, if_pos (by simp)]

/-- Two headers of which the second starts in the first have the same brace. -/
theorem length_eq_of_headers {gap gap' r r' : Text} (hname : .char '{' ∉ name)
    (hgap : allBlank gap = true) (hgap' : allBlank gap' = true)
    (hle : p.length ≤ name.length + gap'.length)
    (h : name ++ (gap' ++ .char '{' :: r') = p ++ (name ++ (gap ++ .char '{' :: r))) :
    name.length + gap'.length = p.length + name.length + gap.length := by
  have hnot : ∀ g, allBlank g = true → .char '{' ∉ name ++ g := by
    intro g hg
    rw [List.mem_append, not_or]
    exact ⟨hname, not_mem_of_allBlank (by decide) hg⟩
  have hfirst : name ++ (gap' ++ .char '{' :: r') = (name ++ gap') ++ .char '{' :: r' := by simp
  have hsecond : p ++ (name ++ (gap ++ .char '{' :: r)) =
      (p ++ (name ++ gap)) ++ .char '{' :: r := by simp
  have hone : name.length + gap'.length = (name ++ gap').length := by simp
  have htwo : p.length + name.length + gap.length = (p ++ (name ++ gap)).length := by
    simp only [List.length_append]
    omega
  rw [hone, htwo]
  rcases Nat.lt_trichotomy (name ++ gap').length (p ++ (name ++ gap)).length with hlt | heq | hlt
  · -- the first brace would be in the second name, or in the blanks behind it
    have hget : (p ++ (name ++ gap))[(name ++ gap').length]? = some (.char '{') := by
      rw [← List.getElem?_append_left hlt, ← hsecond, ← h, hfirst, getElem?_append_length]
    rw [List.getElem?_append_right (by omega)] at hget
    exact absurd (List.mem_of_getElem? hget) (hnot gap hgap)
  · exact heq
  · have hget : (name ++ gap')[(p ++ (name ++ gap)).length]? = some (.char '{') := by
      rw [← List.getElem?_append_left hlt, ← hfirst, h, hsecond, getElem?_append_length]
    exact absurd (List.mem_of_getElem? hget) (hnot gap' hgap')

/-- One character further on. -/
theorem Headed.cons (h : Headed name (some c) t k) (before : Option CodePoint) :
    Headed name before (c :: t) (k + 1) := by
  obtain ⟨p, gap, r, rfl, hgap, hjoint, rfl⟩ := h
  refine ⟨c :: p, gap, r, rfl, hgap, ?_, by rw [List.length_cons]; omega⟩
  rw [List.getLast?_cons]
  revert hjoint
  cases p.getLast? <;> exact id

/-- What is listed is headed. -/
theorem headed_of_mem_headerBraces (h : i ∈ headerBraces name skip before index t) :
    ∃ k, i = index + k ∧ Headed name before t k := by
  induction t generalizing skip before index with
  | nil => cases skip <;> cases h
  | cons c r ih =>
    -- what is listed behind the first character is headed there
    have hrest : ∀ skip', i ∈ headerBraces name skip' (some c) (index + 1) r →
        ∃ k, i = index + k ∧ Headed name before (c :: r) k := by
      intro skip' hmem
      obtain ⟨k, rfl, hk⟩ := ih hmem
      exact ⟨k + 1, by omega, hk.cons before⟩
    cases skip with
    | succ skip => exact hrest _ h
    | zero =>
      rw [headerBraces] at h
      split at h
      · next size hsize =>
        split at hsize
        · cases hsize
        · next hjoint =>
          rcases List.mem_cons.1 h with rfl | h
          · obtain ⟨gap, r', heq, hgap, rfl⟩ := headerSize?_eq_some_iff.1 hsize
            refine ⟨name.length + gap.length, by omega, [], gap, r', heq, hgap, ?_, ?_⟩
            · exact Bool.eq_false_iff.2 hjoint
            · rw [List.length_nil, Nat.zero_add]
          · exact hrest _ h
      · exact hrest _ h

/-- What is headed is listed, unless its name starts before the search goes on. A name that starts
within a header that was found has the same brace. -/
theorem mem_headerBraces_of_eq {gap r : Text} (hname : .char '{' ∉ name)
    (hgap : allBlank gap = true)
    (hjoint : (p.getLast?.or before).any isJoint = false) (hskip : skip ≤ p.length)
    (ht : t = p ++ (name ++ (gap ++ .char '{' :: r))) :
    index + (p.length + name.length + gap.length) ∈ headerBraces name skip before index t := by
  induction t generalizing p skip before index with
  | nil => simp at ht
  | cons c t ih =>
    -- what is headed behind the first character is listed there
    have hrest : ∀ p' skip', p = c :: p' → skip' ≤ p'.length →
        index + (p.length + name.length + gap.length) ∈
          headerBraces name skip' (some c) (index + 1) t := by
      rintro p' skip' rfl hle
      have hlast : (p'.getLast?.or (some c)).any isJoint = false := by
        rw [List.getLast?_cons] at hjoint
        revert hjoint
        cases p'.getLast? <;> exact id
      have hmem : index + 1 + (p'.length + name.length + gap.length) ∈
          headerBraces name skip' (some c) (index + 1) t := ih hlast hle (List.cons.inj ht).2
      rw [List.length_cons]
      rwa [show index + 1 + (p'.length + name.length + gap.length) =
        index + (p'.length + 1 + name.length + gap.length) by omega] at hmem
    cases skip with
    | succ skip =>
      cases p with
      | nil => cases hskip
      | cons c' p' =>
        obtain rfl : c = c' := (List.cons.inj ht).1
        exact hrest p' skip rfl (Nat.le_of_succ_le_succ hskip)
    | zero =>
      rw [headerBraces]
      split
      · next size hsize =>
        split at hsize
        · cases hsize
        · obtain ⟨gap', r', heq, hgap', rfl⟩ := headerSize?_eq_some_iff.1 hsize
          by_cases hle : name.length + gap'.length < p.length
          · cases p with
            | nil => cases hle
            | cons c' p' =>
              obtain rfl : c = c' := (List.cons.inj ht).1
              apply List.mem_cons_of_mem
              exact hrest p' _ rfl (by rw [List.length_cons] at hle; omega)
          · -- both braces are the first one behind the name that starts later
            have hsame := length_eq_of_headers hname hgap hgap' (by omega) (heq.symm.trans ht)
            rw [show index + (p.length + name.length + gap.length) =
              index + (name.length + gap'.length + 1) - 1 by omega]
            exact List.mem_cons_self
      · next hnone =>
        cases p with
        | nil =>
          rw [List.getLast?_nil, Option.none_or] at hjoint
          have hsize : headerSize? name (c :: t) = some (name.length + gap.length + 1) :=
            headerSize?_eq_some_iff.2 ⟨gap, r, ht, hgap, rfl⟩
          have hfree : ¬(before.any fun b => isWord b || b == .char '.') = true :=
            Bool.eq_false_iff.1 hjoint
          rw [if_neg hfree, hsize] at hnone
          cases hnone
        | cons c' p' =>
          obtain rfl : c = c' := (List.cons.inj ht).1
          exact hrest p' 0 rfl (Nat.zero_le _)

theorem mem_headerBraces_iff (hname : .char '{' ∉ name) :
    i ∈ headerBraces name 0 before index t ↔ ∃ k, i = index + k ∧ Headed name before t k := by
  refine ⟨headed_of_mem_headerBraces, ?_⟩
  rintro ⟨k, rfl, p, gap, r, ht, hgap, hjoint, rfl⟩
  exact mem_headerBraces_of_eq hname hgap hjoint (Nat.zero_le _) ht

theorem le_of_mem_headerBraces (h : i ∈ headerBraces name skip before index t) :
    index + skip ≤ i := by
  induction t generalizing skip before index with
  | nil => cases skip <;> cases h
  | cons c r ih =>
    cases skip with
    | succ skip =>
      have hle : index + 1 + skip ≤ i := ih h
      omega
    | zero =>
      rw [headerBraces] at h
      split at h
      · rcases List.mem_cons.1 h with rfl | h
        · next hsize =>
          split at hsize
          · cases hsize
          · obtain ⟨gap, r', -, -, rfl⟩ := headerSize?_eq_some_iff.1 hsize
            omega
        · have hle := ih h
          omega
      · have hle : index + 1 + 0 ≤ i := ih h
        omega

/-- The braces are listed in order. -/
theorem pairwise_headerBraces (name : Text) (skip : Nat) (before : Option CodePoint) (index : Nat)
    (t : Text) : (headerBraces name skip before index t).Pairwise (· < ·) := by
  induction t generalizing skip before index with
  | nil => cases skip <;> exact .nil
  | cons c r ih =>
    cases skip with
    | succ skip => exact ih skip (some c) (index + 1)
    | zero =>
      rw [headerBraces]
      split
      · refine List.pairwise_cons.2 ⟨?_, ih _ _ _⟩
        intro i hi
        have hle := le_of_mem_headerBraces hi
        omega
      · exact ih 0 (some c) (index + 1)

end Insertion

/-! ## Depths -/

/-- What a brace adds to the depth. -/
def Brace.step : Brace → Int
  | opening => 1
  | closing => -1

/-- The depth that braces lead to before an index, from depth zero on. -/
def depthBefore (bs : List BraceAt) (i : Nat) : Int :=
  ((bs.filter (·.index < i)).map (·.brace.step)).sum

/-- The depth of a text at an index: how many more structural braces before it open than close. -/
def depthAt (t : Text) (i : Nat) : Int :=
  depthBefore (braces t) i

theorem depthBefore_append (as bs : List BraceAt) (i : Nat) :
    depthBefore (as ++ bs) i = depthBefore as i + depthBefore bs i := by
  rw [depthBefore, List.filter_append, List.map_append, List.sum_append]
  rfl

/-- Braces at an index or behind it do not count there. -/
theorem depthBefore_of_le (h : ∀ b ∈ bs, i ≤ b.index) : depthBefore bs i = 0 := by
  have hnil : bs.filter (·.index < i) = [] := by
    rw [List.filter_eq_nil_iff]
    intro b hb
    have := h b hb
    simpa using this
  rw [depthBefore, hnil]
  rfl

namespace Insertion

theorem mem_openDepths_iff (h : bs.Pairwise (·.index < ·.index)) :
    (i, d) ∈ openDepths depth bs ↔ ⟨i, .opening⟩ ∈ bs ∧ d = depth + depthBefore bs i := by
  induction bs generalizing depth with
  | nil => simp [openDepths]
  | cons b bs ih =>
    obtain ⟨hfirst, hrest⟩ := List.pairwise_cons.1 h
    -- at the first brace the depth is as before, and behind it, what this adds counts
    have hhere : depthBefore (b :: bs) b.index = 0 := by
      apply depthBefore_of_le
      exact List.forall_mem_cons.2 ⟨Nat.le_refl _, fun b' hb' => Nat.le_of_lt (hfirst b' hb')⟩
    have hbehind : ⟨i, .opening⟩ ∈ bs →
        depthBefore (b :: bs) i = b.brace.step + depthBefore bs i := by
      intro hmem
      rw [depthBefore, List.filter_cons_of_pos (by simpa using hfirst _ hmem), List.map_cons,
        List.sum_cons]
      rfl
    obtain ⟨j, brace⟩ := b
    cases brace with
    | opening =>
      rw [openDepths, List.mem_cons, List.mem_cons, ih hrest]
      constructor
      · rintro (heq | ⟨hmem, rfl⟩)
        · cases heq
          exact ⟨.inl rfl, by rw [hhere, Int.add_zero]⟩
        · exact ⟨.inr hmem, by rw [hbehind hmem, Int.add_assoc]; rfl⟩
      · rintro ⟨heq | hmem, rfl⟩
        · cases heq
          exact .inl (by rw [hhere, Int.add_zero])
        · exact .inr ⟨hmem, by rw [hbehind hmem, Int.add_assoc]; rfl⟩
    | closing =>
      rw [openDepths, ih hrest, List.mem_cons]
      constructor
      · rintro ⟨hmem, rfl⟩
        exact ⟨.inr hmem, by rw [hbehind hmem, ← Int.add_assoc]; rfl⟩
      · rintro ⟨heq | hmem, rfl⟩
        · cases heq
        · exact ⟨hmem, by rw [hbehind hmem, ← Int.add_assoc]; rfl⟩

/-! ## The choice -/

/-- At an index of a text there is an anchor of a name: a structural brace with the name before
it. -/
structure IsAnchor (name t : Text) (i : Nat) : Prop where
  headed : Headed name none t i
  structural : ⟨i, .opening⟩ ∈ braces t

/-- The anchors of a name with their depths, in order. -/
def candidates (name t : Text) : List (Nat × Int) :=
  (headerBraces name 0 none 0 t).filterMap fun i =>
    (openDepths 0 (braces t)).find? (·.1 == i)

theorem find?_openDepths_eq_some_iff {e : Nat × Int} :
    (openDepths 0 (braces t)).find? (·.1 == i) = some e ↔
      e = (i, depthAt t i) ∧ ⟨i, .opening⟩ ∈ braces t := by
  have hmem : ∀ e : Nat × Int, e ∈ openDepths 0 (braces t) ↔
      ⟨e.1, .opening⟩ ∈ braces t ∧ e.2 = depthAt t e.1 := by
    intro e
    rw [← Int.zero_add (depthAt t e.1)]
    exact mem_openDepths_iff (pairwise_braces t)
  constructor
  · intro h
    have hindex := List.find?_some h
    obtain rfl := eq_of_beq hindex
    obtain ⟨hbrace, hdepth⟩ := (hmem e).1 (List.mem_of_find?_eq_some h)
    exact ⟨by rw [← hdepth], hbrace⟩
  · rintro ⟨rfl, hbrace⟩
    have hsome : ((openDepths 0 (braces t)).find? (·.1 == i)).isSome := by
      rw [List.find?_isSome]
      exact ⟨(i, depthAt t i), (hmem _).2 ⟨hbrace, rfl⟩, beq_self_eq_true i⟩
    obtain ⟨e, he⟩ := Option.isSome_iff_exists.1 hsome
    have hindex := List.find?_some he
    obtain rfl := eq_of_beq hindex
    obtain ⟨-, hdepth⟩ := (hmem e).1 (List.mem_of_find?_eq_some he)
    rw [he, ← hdepth]

theorem mem_candidates_iff (hname : .char '{' ∉ name) {e : Nat × Int} :
    e ∈ candidates name t ↔ IsAnchor name t e.1 ∧ e.2 = depthAt t e.1 := by
  rw [candidates, List.mem_filterMap]
  constructor
  · rintro ⟨i, hi, he⟩
    obtain ⟨k, rfl, hheaded⟩ := (mem_headerBraces_iff hname).1 hi
    obtain ⟨rfl, hbrace⟩ := find?_openDepths_eq_some_iff.1 he
    rw [Nat.zero_add] at hbrace ⊢
    exact ⟨⟨hheaded, hbrace⟩, rfl⟩
  · rintro ⟨⟨hheaded, hbrace⟩, hdepth⟩
    refine ⟨e.1, (mem_headerBraces_iff hname).2 ⟨e.1, (Nat.zero_add _).symm, hheaded⟩, ?_⟩
    exact find?_openDepths_eq_some_iff.2 ⟨by rw [← hdepth], hbrace⟩

theorem pairwise_candidates (name t : Text) : (candidates name t).Pairwise (·.1 < ·.1) := by
  refine (pairwise_headerBraces name 0 none 0 t).filterMap _ ?_
  intro i j hij e he e' he'
  rw [(find?_openDepths_eq_some_iff.1 he).1, (find?_openDepths_eq_some_iff.1 he').1]
  exact hij

/-- A brace is the choice for a name: the first anchor at the top level, or the first of all if none
is there. -/
def IsChoice (name t : Text) (i : Nat) : Prop :=
  IsAnchor name t i ∧ ((depthAt t i = 0 ∧ ∀ j < i, IsAnchor name t j → depthAt t j ≠ 0) ∨
    ((∀ j, IsAnchor name t j → depthAt t j ≠ 0) ∧ ∀ j < i, ¬ IsAnchor name t j))

theorem IsChoice.unique (hi : IsChoice name t i) (hj : IsChoice name t j) : i = j := by
  obtain ⟨hi, ⟨hizero, hifirst⟩ | ⟨hinone, hifirst⟩⟩ := hi
  · obtain ⟨hj, ⟨hjzero, hjfirst⟩ | ⟨hjnone, -⟩⟩ := hj
    · rcases Nat.lt_trichotomy i j with hlt | heq | hlt
      · exact absurd hizero (hjfirst i hlt hi)
      · exact heq
      · exact absurd hjzero (hifirst j hlt hj)
    · exact absurd hizero (hjnone i hi)
  · obtain ⟨hj, ⟨hjzero, -⟩ | ⟨-, hjfirst⟩⟩ := hj
    · exact absurd hjzero (hinone j hj)
    · rcases Nat.lt_trichotomy i j with hlt | heq | hlt
      · exact absurd hi (hjfirst i hlt)
      · exact heq
      · exact absurd hj (hifirst j hlt)

theorem isChoice_of_blockBrace? (hname : .char '{' ∉ name) (h : blockBrace? t name = some i) :
    IsChoice name t i := by
  have hsorted := pairwise_candidates name t
  have hmem := fun e => mem_candidates_iff (t := t) hname (e := e)
  obtain ⟨e, he, rfl⟩ := Option.map_eq_some_iff.1 h
  change ((candidates name t).find? _).or (candidates name t).head? = some e at he
  -- an anchor before one that is listed stands before it in the list
  have hbefore : ∀ as bs, candidates name t = as ++ e :: bs → ∀ j < e.1, IsAnchor name t j →
      (j, depthAt t j) ∈ as := by
    intro as bs heq j hj hanchor
    have hlisted := (hmem (j, depthAt t j)).2 ⟨hanchor, rfl⟩
    rw [heq] at hlisted hsorted
    obtain ⟨-, hbehind, -⟩ := List.pairwise_append.1 hsorted
    rcases List.mem_append.1 hlisted with hlisted | hlisted
    · exact hlisted
    · rcases List.mem_cons.1 hlisted with rfl | hlisted
      · exact absurd hj (Nat.lt_irrefl _)
      · exact absurd ((List.pairwise_cons.1 hbehind).1 _ hlisted) (Nat.lt_asymm hj)
  cases hfind : (candidates name t).find? (·.2 == 0) with
  | some e' =>
    rw [hfind, Option.some_or] at he
    cases he
    obtain ⟨hzero, as, bs, heq, hnot⟩ := List.find?_eq_some_iff_append.1 hfind
    obtain ⟨hanchor, hdepth⟩ := (hmem e).1 (List.mem_of_find?_eq_some hfind)
    refine ⟨hanchor, .inl ⟨by rw [← hdepth]; exact eq_of_beq hzero, fun j hj hj' hnil => ?_⟩⟩
    have hskipped := hnot _ (hbefore as bs heq j hj hj')
    rw [hnil] at hskipped
    cases hskipped
  | none =>
    rw [hfind, Option.none_or] at he
    obtain ⟨rest, heq⟩ := List.head?_eq_some_iff.1 he
    have hnone := List.find?_eq_none.1 hfind
    refine ⟨((hmem e).1 (heq ▸ List.mem_cons_self)).1, .inr ⟨fun j hj hnil => ?_, fun j hj hj' => ?_⟩⟩
    · exact hnone _ ((hmem (j, depthAt t j)).2 ⟨hj, rfl⟩) (by rw [hnil]; rfl)
    · cases hbefore [] rest heq j hj hj'

/-- No brace is chosen exactly if there is no anchor. -/
theorem blockBrace?_eq_none_iff (hname : .char '{' ∉ name) :
    blockBrace? t name = none ↔ ∀ i, ¬ IsAnchor name t i := by
  constructor
  · intro hnone i hanchor
    have hlisted := (mem_candidates_iff hname (e := (i, depthAt t i))).2 ⟨hanchor, rfl⟩
    change (((candidates name t).find? _).or (candidates name t).head?).map _ = none at hnone
    rw [Option.map_eq_none_iff, Option.or_eq_none_iff, List.head?_eq_none_iff] at hnone
    rw [hnone.2] at hlisted
    cases hlisted
  · intro hnone
    refine Option.eq_none_iff_forall_ne_some.2 fun i hi => ?_
    exact hnone i (isChoice_of_blockBrace? hname hi).1

/-- **Which brace is chosen**: the first anchor at the top level, or the first of all if none is
there. -/
theorem blockBrace?_eq_some_iff (hname : .char '{' ∉ name) :
    blockBrace? t name = some i ↔ IsChoice name t i := by
  refine ⟨isChoice_of_blockBrace? hname, fun h => ?_⟩
  have hsome : blockBrace? t name ≠ none := fun hnone =>
    (blockBrace?_eq_none_iff hname).1 hnone i h.1
  obtain ⟨j, hj⟩ := Option.ne_none_iff_exists'.1 hsome
  rw [hj, (isChoice_of_blockBrace? hname hj).unique h]

end Insertion

/-! ## Braces part by part -/

/-- A brace that stands further on. -/
def BraceAt.shift (n : Nat) (b : BraceAt) : BraceAt :=
  ⟨b.index + n, b.brace⟩

namespace ScanState

variable {s : ScanState} {rest : Text}

theorem scan_add (s : ScanState) (i n : Nat) (t : Text) :
    s.scan (i + n) t = (s.scan i t).map (·.shift n) := by
  induction t generalizing s i with
  | nil => rfl
  | cons c r ih =>
    rw [scan, scan, Nat.add_right_comm]
    split
    · rw [List.map_cons, ih]
      rfl
    · exact ih _ _

theorem scan_eq_map (s : ScanState) (i : Nat) (t : Text) :
    s.scan i t = (s.scan 0 t).map (·.shift i) := by
  rw [← scan_add, Nat.zero_add]

/-- Before inert text the braces are those that are there without it. -/
theorem scan_append_inert (hs : s.IsProper) (h : Inert rest) (i : Nat) (t : Text) :
    s.scan i (t ++ rest) = s.scan i t ++ (s.after t rest).scan (i + t.length) rest := by
  induction t generalizing s i with
  | nil => rfl
  | cons c r ih =>
    have hnext : s.next c (r ++ rest) = s.next c r := by
      rw [next_congr hs h inert_nil c r, List.append_nil]
    have hlength : i + (c :: r).length = i + 1 + r.length := by
      rw [List.length_cons]
      omega
    rw [List.cons_append, scan, scan, after, hnext, ih (hs.next c _), hlength]
    split
    · rfl
    · rfl

end ScanState

open ScanState

theorem lt_length_of_mem_braces (h : e ∈ braces t) : e.index < t.length :=
  (List.getElem?_eq_some_iff.1 (getElem?_of_mem_braces h)).1

theorem braces_cons_brace (t : Text) :
    braces (.char '{' :: t) = ⟨0, .opening⟩ :: (braces t).map (·.shift 1) := by
  show _ :: start.scan 1 t = _
  rw [scan_eq_map]
  rfl

theorem braces_append_of_after (hinert : Inert u) (h : start.after t u = start) :
    braces (t ++ u) = braces t ++ (braces u).map (·.shift t.length) := by
  show start.scan 0 (t ++ u) = start.scan 0 t ++ _
  rw [scan_append_inert isProper_start hinert, h, Nat.zero_add, scan_eq_map _ t.length]
  rfl

theorem braces_blanks (hb : allBlank b = true) (t : Text) :
    braces (b ++ t) = (braces t).map (·.shift b.length) := by
  have hscan : ∀ i, start.scan i (b ++ t) = start.scan (i + b.length) t := by
    intro i
    induction b generalizing i with
    | nil => rfl
    | cons c r ih =>
      obtain ⟨hc, hr⟩ := Bool.and_eq_true_iff.1 hb
      obtain ⟨hnone, hnext⟩ := start_of_isBlank hc
      rw [List.cons_append, scan, hnone, hnext]
      show start.scan (i + 1) (r ++ t) = _
      rw [ih hr, List.length_cons, Nat.add_assoc, Nat.add_comm 1]
  show start.scan 0 (b ++ t) = _
  rw [hscan, Nat.zero_add, scan_eq_map]
  rfl

theorem mem_map_shift_iff {n : Nat} {brace : Brace} :
    ⟨n + k, brace⟩ ∈ bs.map (·.shift n) ↔ ⟨k, brace⟩ ∈ bs := by
  rw [List.mem_map]
  constructor
  · rintro ⟨⟨j, brace'⟩, hmem, heq⟩
    obtain ⟨hindex, rfl⟩ : j + n = n + k ∧ brace' = brace := by
      rwa [BraceAt.shift, BraceAt.mk.injEq] at heq
    obtain rfl : j = k := by omega
    exact hmem
  · intro hmem
    exact ⟨_, hmem, by rw [BraceAt.shift, Nat.add_comm]⟩

theorem le_of_mem_map_shift {n : Nat} (h : e ∈ bs.map (·.shift n)) :
    n ≤ e.index := by
  obtain ⟨e', -, rfl⟩ := List.mem_map.1 h
  exact Nat.le_add_left n e'.index

theorem depthBefore_map_shift (bs : List BraceAt) (n k : Nat) :
    depthBefore (bs.map (·.shift n)) (n + k) = depthBefore bs k := by
  have hfilter : (bs.map (·.shift n)).filter (·.index < n + k) =
      (bs.filter (·.index < k)).map (·.shift n) := by
    rw [List.filter_map]
    congr 2
    funext e
    simp only [Function.comp_apply, BraceAt.shift, decide_eq_decide]
    omega
  rw [depthBefore, hfilter, List.map_map]
  rfl

namespace Insertion

/-! ## Headers part by part -/

/-- Behind a part that no header starts in and ends behind, headers are those that are there without
it. -/
theorem headed_append_iff (hcross : ∀ q gap r, t ++ u = q ++ (name ++ (gap ++ .char '{' :: r)) →
      allBlank gap = true → t.length ≤ q.length + name.length + gap.length →
        t.length ≤ q.length) :
    Headed name before (t ++ u) (t.length + k) ↔ Headed name (t.getLast?.or before) u k := by
  constructor
  · rintro ⟨q, gap, r, heq, hgap, hjoint, hk⟩
    have hle := hcross q gap r heq hgap (by omega)
    obtain ⟨q', rfl⟩ : t <+: q := List.prefix_of_prefix_length_le ⟨u, rfl⟩ ⟨_, heq.symm⟩ hle
    rw [List.append_assoc, List.append_cancel_left_eq] at heq
    rw [List.getLast?_append, Option.or_assoc] at hjoint
    rw [List.length_append] at hk
    exact ⟨q', gap, r, heq, hgap, hjoint, by omega⟩
  · rintro ⟨q, gap, r, rfl, hgap, hjoint, rfl⟩
    refine ⟨t ++ q, gap, r, (List.append_assoc ..).symm, hgap, ?_, ?_⟩
    · rwa [List.getLast?_append, Option.or_assoc]
    · rw [List.length_append]
      omega

/-- A character that ends no name does not matter. -/
theorem headed_some_iff (hc : isJoint c = false) : Headed name (some c) t k ↔ Headed name none t k := by
  have hany : ∀ q : Text, (q.getLast?.or (some c)).any isJoint = (q.getLast?.or none).any isJoint := by
    intro q
    cases q.getLast? with
    | none => exact hc
    | some d => rfl
  simp only [Headed, hany]

theorem isJoint_of_isBlank (hc : isBlank c = true) : isJoint c = false := by
  rw [isJoint, isWord, isAlphanumeric_of_isBlank hc, Bool.false_or, Bool.or_eq_false_iff,
    beq_eq_false_iff_ne, beq_eq_false_iff_ne]
  constructor
  · rintro rfl
    revert hc
    decide
  · rintro rfl
    revert hc
    decide

/-- No header goes on beyond a brace. -/
theorem headed_brace_iff (hname : .char '{' ∉ name) (p u : Text) :
    Headed name none (p ++ .char '{' :: u) (p.length + 1 + k) ↔ Headed name none u k := by
  have hlength : (p ++ [CodePoint.char '{']).length = p.length + 1 := by simp
  rw [List.append_cons, ← hlength, headed_append_iff, List.getLast?_concat, Option.some_or,
    headed_some_iff (by decide)]
  intro q gap r heq hgap hle
  rw [hlength] at hle ⊢
  refine Nat.not_lt.1 fun hlt => ?_
  -- the brace would be in the name, or in the blanks behind it
  have hget : (q ++ (name ++ (gap ++ .char '{' :: r)))[p.length]? = some (.char '{') := by
    rw [← heq, ← List.append_cons, getElem?_append_length]
  rw [List.getElem?_append_right (by omega), ← List.append_assoc,
    List.getElem?_append_left (by rw [List.length_append]; omega)] at hget
  have hmem := List.mem_of_getElem? hget
  rcases List.mem_append.1 hmem with hmem | hmem
  · exact hname hmem
  · exact not_mem_of_allBlank (by decide) hgap hmem

/-- No header starts in blanks. -/
theorem headed_blanks_iff (hc : isBlank c = false) (hb : allBlank b = true) (u : Text) :
    Headed (c :: name) none (b ++ u) (b.length + k) ↔ Headed (c :: name) none u k := by
  rw [headed_append_iff]
  · cases hlast : b.getLast? with
    | none => rfl
    | some d =>
      have hd := List.all_eq_true.1 hb d (List.mem_of_getLast? hlast)
      rw [Option.some_or, headed_some_iff (isJoint_of_isBlank hd)]
  · intro q gap r heq hgap hle
    refine Nat.not_lt.1 fun hlt => ?_
    have hget : (b ++ u)[q.length]? = some c := by
      rw [heq]
      exact getElem?_append_length q c _
    rw [List.getElem?_append_left (by omega)] at hget
    have hblank := List.all_eq_true.1 hb c (List.mem_of_getElem? hget)
    rw [hc] at hblank
    cases hblank

/-- What follows a brace is no part of its header. -/
theorem headed_append_left_iff (hk : k < t.length) (u : Text) :
    Headed name before (t ++ u) k ↔ Headed name before t k := by
  constructor
  · rintro ⟨q, gap, r, heq, hgap, hjoint, rfl⟩
    have hsplit : q ++ (name ++ (gap ++ .char '{' :: r)) =
        (q ++ (name ++ (gap ++ [.char '{']))) ++ r := by simp
    rw [hsplit] at heq
    obtain ⟨r', rfl⟩ : q ++ (name ++ (gap ++ [.char '{'])) <+: t := by
      apply List.prefix_of_prefix_length_le ⟨r, heq.symm⟩ ⟨u, rfl⟩
      simp only [List.length_append, List.length_cons, List.length_nil]
      omega
    exact ⟨q, gap, r', by simp, hgap, hjoint, rfl⟩
  · rintro ⟨q, gap, r, rfl, hgap, hjoint, rfl⟩
    exact ⟨q, gap, r ++ u, by simp, hgap, hjoint, rfl⟩

/-! ## Anchors part by part -/

/-- A text that brings no header with it, whatever precedes it. -/
def Headless (name t : Text) : Prop :=
  ∀ u k, Headed name none (u ++ t) k → k < u.length

theorem headless_of_not_mem (h : .char '{' ∉ t) (name : Text) : Headless name t := by
  rintro u k ⟨q, gap, r, heq, -, -, rfl⟩
  refine Nat.not_le.1 fun hle => h ?_
  have hget : (u ++ t)[q.length + name.length + gap.length]? = some (.char '{') := by
    have hsplit : q ++ (name ++ (gap ++ .char '{' :: r)) =
        (q ++ (name ++ gap)) ++ .char '{' :: r := by simp
    have hlength : q.length + name.length + gap.length = (q ++ (name ++ gap)).length := by
      simp only [List.length_append]
      omega
    rw [heq, hsplit, hlength, getElem?_append_length]
  rw [List.getElem?_append_right hle] at hget
  exact List.mem_of_getElem? hget

/-- No header comes in with a text in which every opening brace has something else before it than the
end of the name. -/
theorem headless_of_forall {d : CodePoint} (hname : name.getLast? = some d) (hd : isBlank d = false)
    (h : ∀ n, t[n]? = some (.char '{') → ∃ e, (trimRight (t.take n)).getLast? = some e ∧ e ≠ d) :
    Headless name t := by
  rintro u k ⟨q, gap, r, heq, hgap, -, rfl⟩
  refine Nat.not_le.1 fun hle => ?_
  obtain ⟨n, hn⟩ := Nat.exists_eq_add_of_le hle
  have hsplit : u ++ t = (q ++ name) ++ gap ++ .char '{' :: r := by
    rw [heq]
    simp
  have hlength : ((q ++ name) ++ gap).length = u.length + n := by
    simp only [List.length_append]
    omega
  have hget : t[n]? = some (.char '{') := by
    have hbrace := getElem?_append_length ((q ++ name) ++ gap) (.char '{') r
    rw [← hsplit, hlength, List.getElem?_append_right (Nat.le_add_right _ _)] at hbrace
    rwa [Nat.add_sub_cancel_left] at hbrace
  obtain ⟨e, he, hne⟩ := h n hget
  -- what precedes the brace ends with the name and blanks
  have htake : u ++ t.take n = (q ++ name) ++ gap := by
    have htaken := congrArg (List.take (u.length + n)) hsplit
    rw [← hlength, List.take_left, hlength, List.take_append, List.take_of_length_le (by omega),
      Nat.add_sub_cancel_left] at htaken
    exact htaken
  obtain ⟨b, hb, hblank⟩ := exists_trimRight_append (t.take n)
  have hfront : (u ++ trimRight (t.take n)).getLast? = some e := by
    rw [List.getLast?_append, he]
    rfl
  have hback : (q ++ name).getLast? = some d := by
    rw [List.getLast?_append, hname]
    rfl
  have hsame := eq_of_append_blanks hfront (isBlank_of_getLast?_trimRight he) hback hd hblank hgap
    (by rw [List.append_assoc, ← hb, htake])
  rw [hsame, hback] at hfront
  exact hne (Option.some.inj hfront).symm

/-- No header ends behind a text if there is no brace there. -/
theorem Headless.append (ht : Headless name t) (hu : .char '{' ∉ u) : Headless name (t ++ u) := by
  intro v k hk
  rw [← List.append_assoc] at hk
  have hlt := headless_of_not_mem hu name (v ++ t) k hk
  exact ht v k ((headed_append_left_iff hlt u).1 hk)

section Behind

variable (hname : .char '{' ∉ name) (hbrace : ⟨p.length, .opening⟩ ∈ braces (p ++ .char '{' :: u))

include hbrace

theorem braces_brace : braces (p ++ .char '{' :: v) =
    braces p ++ ⟨p.length, .opening⟩ :: (braces v).map (·.shift (p.length + 1)) := by
  have hinert : ∀ r, Inert (.char '{' :: r) := inert_cons (by decide)
  have hafter : start.after p (.char '{' :: v) = start := by
    have h := after_of_mem_scan hbrace
    rw [Nat.sub_zero, List.drop_zero, List.take_left, List.drop_left] at h
    rwa [after_congr isProper_start (hinert v) (hinert u)]
  have hshift : ∀ e : BraceAt, (e.shift 1).shift p.length = e.shift (p.length + 1) := by
    rintro ⟨i, b⟩
    simp only [BraceAt.shift, BraceAt.mk.injEq, and_true]
    omega
  rw [braces_append_of_after (hinert v) hafter, braces_cons_brace, List.map_cons, List.map_map]
  simp only [Function.comp_def, hshift]
  rw [BraceAt.shift, Nat.zero_add]

/-- Up to the brace, the depth does not depend on what follows it. -/
theorem depthAt_brace_of_le (hi : i ≤ p.length) :
    depthAt (p ++ .char '{' :: v) i = depthBefore (braces p) i := by
  have hbehind : ∀ e ∈ (⟨p.length, .opening⟩ : BraceAt) ::
      (braces v).map (·.shift (p.length + 1)), i ≤ e.index := by
    refine List.forall_mem_cons.2 ⟨hi, fun e he => ?_⟩
    have hle := le_of_mem_map_shift he
    omega
  rw [depthAt, braces_brace hbrace, depthBefore_append, depthBefore_of_le hbehind]
  exact Int.add_zero _

/-- Behind the brace, the depth is greater by what it is there. -/
theorem depthAt_brace_add (k : Nat) : depthAt (p ++ .char '{' :: v) (p.length + 1 + k) =
    ((braces p).map (·.brace.step)).sum + (1 + depthAt v k) := by
  have hall : (braces p).filter (·.index < p.length + 1 + k) = braces p := by
    rw [List.filter_eq_self]
    intro e he
    have hlt := lt_length_of_mem_braces he
    rw [decide_eq_true_eq]
    omega
  have hone : p.length < p.length + 1 + k := by omega
  rw [depthAt, braces_brace hbrace, depthBefore_append, depthBefore, hall, depthBefore,
    List.filter_cons_of_pos (by simpa using hone), List.map_cons, List.sum_cons]
  exact congrArg (fun d => _ + (1 + d)) (depthBefore_map_shift (braces v) (p.length + 1) k)

theorem IsAnchor.brace_of_le (hi : i ≤ p.length) (h : IsAnchor name (p ++ .char '{' :: u) i)
    (v : Text) :
    IsAnchor name (p ++ .char '{' :: v) i := by
  have hlt : i < (p ++ [CodePoint.char '{']).length := by
    rw [List.length_append, List.length_singleton]
    omega
  refine ⟨?_, ?_⟩
  · rw [List.append_cons, headed_append_left_iff hlt, ← headed_append_left_iff hlt u,
      ← List.append_cons]
    exact h.headed
  · have hmem := h.structural
    rw [braces_brace hbrace, List.mem_append, List.mem_cons] at hmem ⊢
    refine hmem.imp_right fun hmem => hmem.imp_right fun hmem => ?_
    have hle : p.length + 1 ≤ i := le_of_mem_map_shift hmem
    omega

include hname

theorem isAnchor_brace_add_iff :
    IsAnchor name (p ++ .char '{' :: v) (p.length + 1 + k) ↔ IsAnchor name v k := by
  have hstructural : ⟨p.length + 1 + k, .opening⟩ ∈ braces (p ++ .char '{' :: v) ↔
      ⟨k, .opening⟩ ∈ braces v := by
    rw [braces_brace hbrace, List.mem_append, List.mem_cons, mem_map_shift_iff]
    refine ⟨?_, fun h => .inr (.inr h)⟩
    rintro (hmem | heq | hmem)
    · have hlt : p.length + 1 + k < p.length := lt_length_of_mem_braces hmem
      omega
    · rw [BraceAt.mk.injEq] at heq
      omega
    · exact hmem
  constructor
  · rintro ⟨hheaded, hmem⟩
    exact ⟨(headed_brace_iff hname p v).1 hheaded, hstructural.1 hmem⟩
  · rintro ⟨hheaded, hmem⟩
    exact ⟨(headed_brace_iff hname p v).2 hheaded, hstructural.2 hmem⟩

/-- **The choice depends on what follows the brace only through the depths of the anchors there.** -/
theorem blockBrace?_append (h : blockBrace? (p ++ .char '{' :: u) name = some p.length)
    (hsame : ∀ k, IsAnchor name v k → ∃ j, IsAnchor name u j ∧ depthAt u j = depthAt v k) :
    blockBrace? (p ++ .char '{' :: v) name = some p.length := by
  rw [blockBrace?_eq_some_iff hname] at h ⊢
  obtain ⟨hanchor, hchoice⟩ := h
  have hbrace' := braces_brace hbrace (v := v)
  replace hbrace' : ⟨p.length, .opening⟩ ∈ braces (p ++ .char '{' :: v) := by
    rw [hbrace']
    exact List.mem_append_right _ List.mem_cons_self
  have hdepth : ∀ i ≤ p.length, depthAt (p ++ .char '{' :: v) i =
      depthAt (p ++ .char '{' :: u) i := by
    intro i hi
    rw [depthAt_brace_of_le hbrace hi, depthAt_brace_of_le hbrace hi]
  refine ⟨hanchor.brace_of_le hbrace (Nat.le_refl _) v, ?_⟩
  rcases hchoice with ⟨hzero, hfirst⟩ | ⟨hnone, hfirst⟩
  · refine .inl ⟨by rw [hdepth _ (Nat.le_refl _), hzero], fun j hj hj' => ?_⟩
    rw [hdepth j (Nat.le_of_lt hj)]
    exact hfirst j hj (hj'.brace_of_le hbrace' (Nat.le_of_lt hj) u)
  · refine .inr ⟨fun j hj => ?_, fun j hj hj' =>
      hfirst j hj (hj'.brace_of_le hbrace' (Nat.le_of_lt hj) u)⟩
    by_cases hle : j ≤ p.length
    · rw [hdepth j hle]
      exact hnone j (hj.brace_of_le hbrace' hle u)
    · obtain ⟨k, rfl⟩ := Nat.exists_eq_add_of_le (Nat.lt_of_not_le hle)
      rw [Nat.succ_eq_add_one] at hj ⊢
      obtain ⟨k', hk', heq⟩ := hsame k ((isAnchor_brace_add_iff hname hbrace).1 hj)
      have hnot := hnone _ ((isAnchor_brace_add_iff hname hbrace).2 hk')
      rwa [depthAt_brace_add hbrace, heq, ← depthAt_brace_add hbrace] at hnot

end Behind

theorem isAnchor_blanks_iff (hc : isBlank c = false) (hb : allBlank b = true) (u : Text) :
    IsAnchor (c :: name) (b ++ u) (b.length + k) ↔ IsAnchor (c :: name) u k := by
  have hstructural : ⟨b.length + k, .opening⟩ ∈ braces (b ++ u) ↔ ⟨k, .opening⟩ ∈ braces u := by
    rw [braces_blanks hb, mem_map_shift_iff]
  constructor
  · rintro ⟨hheaded, hmem⟩
    exact ⟨(headed_blanks_iff hc hb u).1 hheaded, hstructural.1 hmem⟩
  · rintro ⟨hheaded, hmem⟩
    exact ⟨(headed_blanks_iff hc hb u).2 hheaded, hstructural.2 hmem⟩

theorem depthAt_blanks_add (hb : allBlank b = true) (u : Text) (k : Nat) :
    depthAt (b ++ u) (b.length + k) = depthAt u k := by
  rw [depthAt, braces_blanks hb, depthBefore_map_shift]
  rfl

/-- The braces of a text with inert text behind it are its own and some behind it. -/
theorem exists_braces_append (hinert : Inert u) (t : Text) :
    ∃ found, braces (t ++ u) = braces t ++ found ∧ ∀ e ∈ found, t.length ≤ e.index := by
  refine ⟨(start.after t u).scan (0 + t.length) u, scan_append_inert isProper_start hinert 0 t, ?_⟩
  rintro ⟨j, brace⟩ he
  have hle := (getElem?_of_mem_scan he).1
  rwa [Nat.zero_add] at hle

theorem isAnchor_append_iff (hinert : Inert u) (hk : k < t.length) :
    IsAnchor name (t ++ u) k ↔ IsAnchor name t k := by
  obtain ⟨found, hbraces, hfound⟩ := exists_braces_append hinert t
  have hstructural : ⟨k, .opening⟩ ∈ braces (t ++ u) ↔ ⟨k, .opening⟩ ∈ braces t := by
    rw [hbraces, List.mem_append]
    refine ⟨?_, .inl⟩
    rintro (hmem | hmem)
    · exact hmem
    · exact absurd (hfound _ hmem) (Nat.not_le.2 hk)
  constructor
  · rintro ⟨hheaded, hmem⟩
    exact ⟨(headed_append_left_iff hk u).1 hheaded, hstructural.1 hmem⟩
  · rintro ⟨hheaded, hmem⟩
    exact ⟨(headed_append_left_iff hk u).2 hheaded, hstructural.2 hmem⟩

theorem depthAt_append (hinert : Inert u) (hk : k ≤ t.length) :
    depthAt (t ++ u) k = depthAt t k := by
  obtain ⟨found, hbraces, hfound⟩ := exists_braces_append hinert t
  rw [depthAt, hbraces, depthBefore_append,
    depthBefore_of_le fun e he => Nat.le_trans hk (hfound e he)]
  exact Int.add_zero _

/-- Between blanks and text without headers, the anchors are those that are there anyway. -/
theorem IsAnchor.exists_between {a z z' : Text} (hc : isBlank c = false)
    (h : IsAnchor (c :: name) (b ++ (t ++ z)) k) (hb : allBlank b = true) (ha : allBlank a = true)
    (hz : Inert z) (hz' : Inert z') (hheadless : Headless (c :: name) z) :
    ∃ j, IsAnchor (c :: name) (a ++ (t ++ z')) j ∧
      depthAt (a ++ (t ++ z')) j = depthAt (b ++ (t ++ z)) k := by
  obtain ⟨j, rfl⟩ : ∃ j, k = b.length + j := by
    have hmem := h.structural
    rw [braces_blanks hb] at hmem
    exact Nat.exists_eq_add_of_le (le_of_mem_map_shift hmem)
  have hanchor := (isAnchor_blanks_iff hc hb _).1 h
  have hj := hheadless t j hanchor.headed
  refine ⟨a.length + j, ?_, ?_⟩
  · rw [isAnchor_blanks_iff hc ha, isAnchor_append_iff hz' hj, ← isAnchor_append_iff hz hj]
    exact hanchor
  · rw [depthAt_blanks_add ha, depthAt_blanks_add hb, depthAt_append hz' (Nat.le_of_lt hj),
      depthAt_append hz (Nat.le_of_lt hj)]

end Insertion

end Graft
