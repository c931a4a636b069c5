import Graft.Proofs.Edit.Contents

/-!
# The longest run of declaration lines

Which of the lines below a marker belong to its fragment is a question of assignment: the first
lines, as many as can be assigned to different declaration lines of the template, each matching the
one it is assigned to (`IsLongestRun`). A span does not look for an assignment. It takes line by
line, and each line uses up the first declaration line that is left and that it matches.

That is as good as any assignment if a declaration line never stands above another one that matches
some of its lines, but not all of them (`Nested`): then whatever could have been assigned to the
line that was used up can be assigned to the one that was not (`Assignable.of_cons`). Where it does
stand so, there are lines of which too few are taken (`exists_crowded`). There are such lines, too,
where a declaration line stands below another line in the template, since it is not looked for
(`exists_overlooked`).

> `declarationsAt_isLongestRun`: a span takes the longest run in every text if and only if all
> declaration lines are at the head of the template and are nested.
-/

namespace Graft

open Text

/-! ## Assignments -/

namespace Declaration

variable {heads before behind pre post lines : List Text} {head line l m a b : Text} {k : Nat}

/-- Lines that can be assigned to different declaration lines, so that each matches the one it is
assigned to. -/
def Assignable (heads lines : List Text) : Prop :=
  ∃ assigned, List.Subperm assigned heads ∧ List.Forall₂ Matches assigned lines

/-- The first `k` lines can be assigned, and no more of them. -/
structure IsLongestRun (heads lines : List Text) (k : Nat) : Prop where
  le_length : k ≤ lines.length
  assignable : Assignable heads (lines.take k)
  maximal : ∀ j ≤ lines.length, Assignable heads (lines.take j) → j ≤ k

/-- Two declaration lines have no line in common, or all that match the first one match the second
one. -/
def Nested (a b : Text) : Prop :=
  ∀ l m, Matches a l → Matches b l → Matches a m → Matches b m

/-- Lines that match a declaration line match one that matches all of them, too. -/
theorem forall₂_replace {x y : List Text} (hmatches : ∀ m, Matches a m → Matches b m)
    (h : List.Forall₂ Matches (x ++ a :: y) lines) : List.Forall₂ Matches (x ++ b :: y) lines := by
  induction x generalizing lines with
  | nil =>
    cases h with
    | cons hm hrest => exact .cons (hmatches _ hm) hrest
  | cons c x ih =>
    cases h with
    | cons hm hrest => exact .cons hm (ih hrest)

/-- **The first choice is as good as any.** When a line uses up the first declaration line that it
matches, the lines behind it can be assigned to the others, if all of them could be assigned. -/
theorem Assignable.of_cons (hbefore : ∀ a ∈ before, ¬ Matches a line) (hhead : Matches head line)
    (hnested : (before ++ head :: behind).Pairwise Nested)
    (h : Assignable (before ++ head :: behind) (line :: lines)) :
    Assignable (before ++ behind) lines := by
  obtain ⟨_, hsub, hmatches⟩ := h
  cases hmatches with
  | @cons a _ as _ ha has =>
    have hfront := hsub.trans List.perm_middle.subperm
    have hmem : a ∈ head :: behind := by
      rcases List.mem_append.1 (hsub.subset List.mem_cons_self) with hmem | hmem
      · exact absurd ha (hbefore a hmem)
      · exact hmem
    rcases List.mem_cons.1 hmem with rfl | hmem
    · exact ⟨as, (List.subperm_cons a).1 hfront, has⟩
    · by_cases hused : head ∈ as
      · -- the line that was assigned to the first choice is assigned to the other one instead
        obtain ⟨x, y, rfl⟩ := List.append_of_mem hused
        have hsame := (List.pairwise_cons.1 (List.pairwise_append.1 hnested).2.1).1 a hmem line
        refine ⟨x ++ a :: y, (List.subperm_cons head).1 (.trans ?_ hfront),
          forall₂_replace (fun m => hsame m hhead ha) has⟩
        have hswap : (head :: (x ++ a :: y)).Perm (a :: (x ++ head :: y)) :=
          (List.perm_middle.cons head).trans
            ((List.Perm.swap a head _).trans (List.perm_middle.symm.cons a))
        exact hswap.subperm
      · have hothers := ((List.sublist_cons_self a as).subperm.trans hfront).erase head
        rw [List.erase_of_not_mem hused, List.erase_cons_head] at hothers
        exact ⟨as, hothers, has⟩

/-- A refilled line is one line. -/
theorem lineFeed_not_mem_of_refilled {t w : Text} (h : Template.Refilled t w)
    (ht : .char '\n' ∉ t) :
    .char '\n' ∉ w := by
  induction h with
  | nil => exact ht
  | char _ _ ih =>
    rw [List.mem_cons, not_or] at ht ⊢
    exact ⟨ht.1, ih ht.2⟩
  | placeholder _ hvalue _ ih =>
    rw [List.mem_cons, List.mem_append, not_or, not_or] at ht
    rw [List.mem_append, not_or]
    refine ⟨fun hmem => ?_, ih ht.2.2⟩
    have hchar := List.all_eq_true.1 hvalue _ hmem
    revert hchar
    decide

theorem Matches.lineFeed_not_mem (h : Matches head line) (hhead : .char '\n' ∉ head) :
    .char '\n' ∉ line := by
  obtain ⟨indent, w, trail, rfl, hindent, hrefilled, htrail⟩ := h
  have hw := lineFeed_not_mem_of_refilled hrefilled fun hmem =>
    hhead (List.IsInfix.subset ( trim_infix head) hmem)
  simp only [List.mem_append, not_or]
  exact ⟨not_mem_of_isIndent (by decide) hindent, hw, not_mem_of_isIndent (by decide) htrail⟩

/-- Every text can be refilled, with nothing in place of the placeholders. -/
theorem exists_refilled (t : Text) : ∃ w, Template.Refilled t w := by
  induction hlength : t.length using Nat.strongRecOn generalizing t with
  | ind n ih =>
    cases t with
    | nil => exact ⟨[], .nil⟩
    | cons c r =>
      rw [List.length_cons] at hlength
      by_cases hc : c = .char '$' → Template.placeholder? isWord r = none
      · obtain ⟨w, hw⟩ := ih r.length (by omega) r rfl
        exact ⟨c :: w, .char hc hw⟩
      · obtain ⟨rfl, hsome⟩ := Classical.not_imp.1 hc
        obtain ⟨⟨name, size⟩, hp⟩ := Option.ne_none_iff_exists'.1 hsome
        obtain ⟨p, t, rfl, rfl⟩ : ∃ p t, r = p ++ t ∧ size = p.length :=
          ⟨r.take size, r.drop size, (List.take_append_drop _ _).symm, by
            rw [List.length_take, Nat.min_eq_left (Template.size_le hp)]⟩
        rw [List.length_append] at hlength
        obtain ⟨w, hw⟩ := ih t.length (by omega) t rfl
        exact ⟨[] ++ w, .placeholder hp rfl hw⟩

theorem exists_of_mem_left {assigned : List Text} (h : List.Forall₂ Matches assigned lines)
    (ha : a ∈ assigned) : ∃ m ∈ lines, Matches a m := by
  induction h with
  | nil => cases ha
  | cons hm _ ih =>
    rcases List.mem_cons.1 ha with rfl | ha
    · exact ⟨_, List.mem_cons_self, hm⟩
    · obtain ⟨m, hmem, hmatch⟩ := ih ha
      exact ⟨m, List.mem_cons_of_mem _ hmem, hmatch⟩

/-- Lines that all match can be assigned to any lines that they match. -/
theorem forall₂_replicate {assigned : List Text} (h : ∀ a ∈ assigned, Matches a line) :
    List.Forall₂ Matches assigned (List.replicate assigned.length line) := by
  induction assigned with
  | nil => exact .nil
  | cons a as ih =>
    obtain ⟨ha, has⟩ := List.forall_mem_cons.1 h
    exact .cons ha (ih has)

end Declaration

/-! ## What is taken -/

namespace Span

open Declaration

variable {heads before behind pre post lines : List Text} {line l m a b : Text}

/-- **Of nested declaration lines, the longest run is taken.** -/
theorem isLongestRun_of_nested (hheads : ∀ l ∈ heads, isDeclaration l = true)
    (hnested : heads.Pairwise Nested) (stop : Nat) (lines : List Text) :
    IsLongestRun heads lines (takeDeclarations (heads.map patternOf) stop lines).2 := by
  obtain ⟨k, assigned, heq, hle, hsub, hmatches⟩ := exists_takeDeclarations hheads stop lines
  refine ⟨by rwa [heq], by rw [heq]; exact ⟨assigned, hsub, hmatches⟩, ?_⟩
  clear heq hle hsub hmatches
  -- by induction on the lines: what is left after a line was taken is nested, too
  induction lines generalizing heads stop with
  | nil => exact fun j hj _ => hj
  | cons line below ih =>
    intro j hj hassignable
    cases j with
    | zero => exact Nat.zero_le _
    | succ j =>
      rw [List.take_succ_cons] at hassignable
      cases hfind : heads.find? fun l => fits (patternOf l) line with
      | none =>
        obtain ⟨_, hsub, hmatches⟩ := hassignable
        cases hmatches with
        | cons ha has =>
          have hmem := hsub.subset List.mem_cons_self
          exact absurd ((fits_iff (hheads _ hmem)).2 ha) (List.find?_eq_none.1 hfind _ hmem)
      | some head =>
        obtain ⟨hfits, before, behind, rfl, hbefore⟩ := List.find?_eq_some_iff_append.1 hfind
        have hothers : (before ++ behind).Sublist (before ++ head :: behind) :=
          (List.sublist_cons_self head behind).append_left before
        have hnot : ∀ a ∈ before, fits (patternOf a) line = false :=
          fun a ha => by simpa using hbefore a ha
        have hrest := hassignable.of_cons
          (fun a ha hmatches => by
            have := (fits_iff (hheads a (List.mem_append_left _ ha))).2 hmatches
            rw [hnot a ha] at this
            cases this)
          ((fits_iff (hheads head (by simp))).1 hfits) hnested
        rw [takeDeclarations_cons hnot hfits]
        exact Nat.succ_le_succ (ih (fun l hl => hheads l (hothers.subset hl))
          (hnested.sublist hothers) _ j (Nat.le_of_succ_le_succ hj) hrest)

/-! ## Lines of which too few are taken -/

/-- Whether a declaration line has a pattern that a line fits. -/
def accepts (line head : Text) : Bool :=
  fits (patternOf head) line

/-- Lines that are all the same use up the first declaration lines that they match. -/
theorem takeDeclarations_replicate (hbefore : ∀ a ∈ before, accepts line a = false)
    (ha : accepts line a = true) (stop : Nat) (below : List Text) :
    ∃ stop', (takeDeclarations ((before ++ (pre ++ a :: post)).map patternOf) stop
        (List.replicate (pre.countP (accepts line)) line ++ line :: below)).2 =
      pre.countP (accepts line) + 1 +
        (takeDeclarations ((before ++ (pre.filter (!accepts line ·) ++ post)).map patternOf) stop'
          below).2 := by
  induction pre generalizing before stop with
  | nil =>
    refine ⟨stop + 1 + line.length, ?_⟩
    rw [List.countP_nil, List.replicate_zero, List.nil_append, List.nil_append,
      takeDeclarations_cons hbefore ha]
    exact Nat.add_comm _ 1
  | cons b pre ih =>
    cases hb : accepts line b with
    | true =>
      obtain ⟨stop', hstop⟩ := ih hbefore (stop + 1 + line.length)
      refine ⟨stop', ?_⟩
      rw [List.countP_cons_of_pos hb, List.filter_cons_of_neg (by simp [hb]), List.replicate_succ,
        List.cons_append, List.cons_append, takeDeclarations_cons hbefore hb]
      dsimp only
      rw [hstop]
      omega
    | false =>
      have hlater : ∀ a ∈ before ++ [b], accepts line a = false := by
        intro a ha
        rcases List.mem_append.1 ha with ha | ha
        · exact hbefore a ha
        · rw [List.mem_singleton.1 ha, hb]
      obtain ⟨stop', hstop⟩ := ih hlater stop
      refine ⟨stop', ?_⟩
      rw [List.countP_cons_of_neg (by simp [hb]), List.filter_cons_of_pos (by simp [hb])]
      rw [List.append_assoc, List.append_assoc] at hstop
      exact hstop

/-- Of lines that are all the same, no more are taken than there are declaration lines to match. -/
theorem takeDeclarations_le_countP (hheads : ∀ l ∈ heads, isDeclaration l = true) (stop n : Nat) :
    (takeDeclarations (heads.map patternOf) stop (List.replicate n line)).2 ≤
      heads.countP (accepts line) := by
  obtain ⟨k, assigned, heq, hle, hsub, hmatches⟩ :=
    exists_takeDeclarations hheads stop (List.replicate n line)
  rw [List.length_replicate] at hle
  rw [List.take_replicate, Nat.min_eq_left hle] at hmatches
  have hall : ∀ b ∈ assigned, accepts line b = true := by
    intro b hb
    obtain ⟨m, hm, hmatch⟩ := exists_of_mem_left hmatches hb
    rw [List.eq_of_mem_replicate hm] at hmatch
    exact (fits_iff (hheads _ (hsub.subset hb))).2 hmatch
  have hcount := hsub.countP_le (accepts line)
  rw [List.countP_eq_length.2 hall, hmatches.length_eq, List.length_replicate] at hcount
  rwa [heq]

/-- What two conditions that nothing in a list meets both choose from it can be had together, and
with it what is behind and meets the second one, but for one place. -/
theorem subperm_of_disjoint {p q : Text → Bool} (hpre : ∀ a ∈ pre, p a = true → q a = false)
    (hb : b ∈ post) (hq : q b = false) :
    List.Subperm (pre.filter p ++ b :: (pre ++ post).filter q) (pre ++ post) := by
  obtain ⟨u, v, rfl⟩ := List.append_of_mem hb
  have hchosen : (pre ++ (u ++ b :: v)).filter q = pre.filter q ++ (u ++ v).filter q := by
    rw [List.filter_append, List.filter_append, List.filter_append,
      List.filter_cons_of_neg (by simp [hq])]
  have hfront : List.Subperm (pre.filter p ++ pre.filter q) pre := by
    have hsub : (pre.filter q).Sublist (pre.filter (!p ·)) := by
      have hcongr : pre.filter q = (pre.filter (!p ·)).filter q := by
        rw [List.filter_filter]
        apply List.filter_congr
        intro a ha
        cases hpa : p a with
        | false => simp
        | true => simp [hpre a ha hpa]
      rw [hcongr]
      exact List.filter_sublist
    exact (hsub.append_left _).subperm.trans (List.filter_append_perm p pre).subperm
  have hback : List.Subperm (b :: (u ++ v).filter q) (u ++ b :: v) :=
    ((List.subperm_cons b).2 List.filter_sublist.subperm).trans List.perm_middle.symm.subperm
  have hmoved : (pre.filter p ++ b :: (pre.filter q ++ (u ++ v).filter q)).Perm
      ((pre.filter p ++ pre.filter q) ++ b :: (u ++ v).filter q) := by
    rw [List.append_assoc]
    exact List.perm_middle.symm.append_left _
  rw [hchosen]
  exact hmoved.subperm.trans (hfront.append hback)

/-- Of two declaration lines that are not nested, the second one accepts a line `l` but not a line `m`,
and the first one accepts both. It can be chosen as the first of all that do. -/
theorem exists_first_of_not_nested (hheads : ∀ l ∈ heads, isDeclaration l = true)
    (hnot : ¬ heads.Pairwise Nested) : ∃ pre a post b l m, heads = pre ++ a :: post ∧
      (∀ c ∈ pre, accepts l c = true → accepts m c = false) ∧ accepts l a = true ∧
      accepts m a = true ∧ b ∈ a :: post ∧ accepts l b = true ∧ accepts m b = false := by
  obtain ⟨e, b, hsub, l, m, hel, hbl, hem, hbm⟩ : ∃ e b, [e, b].Sublist heads ∧ ∃ l m,
      Matches e l ∧ Matches b l ∧ Matches e m ∧ ¬ Matches b m := by
    simpa [List.pairwise_iff_forall_sublist, Nested] using hnot
  have hiff : ∀ {a line}, a ∈ heads → (accepts line a = true ↔ Matches a line) :=
    fun ha => fits_iff (hheads _ ha)
  have he : e ∈ heads := hsub.subset List.mem_cons_self
  have hb : b ∈ heads := hsub.subset (by simp)
  obtain ⟨a, hfind⟩ : ∃ a, heads.find? (fun c => accepts l c && accepts m c) = some a := by
    rw [← Option.isSome_iff_exists, List.find?_isSome]
    exact ⟨e, he, by rw [(hiff he).2 hel, (hiff he).2 hem]; rfl⟩
  obtain ⟨ha, pre, post, rfl, hpre⟩ := List.find?_eq_some_iff_append.1 hfind
  obtain ⟨hal, ham⟩ := Bool.and_eq_true_iff.1 ha
  have hdisjoint : ∀ c ∈ pre, accepts l c = true → accepts m c = false := by
    intro c hc hcl
    have hboth := hpre c hc
    rw [hcl] at hboth
    simpa using hboth
  have hlater : b ∈ a :: post := by
    obtain ⟨xs, ys, hsplit, hxs, hys⟩ := List.sublist_append_iff.1 hsub
    cases xs with
    | nil =>
      rw [List.nil_append] at hsplit
      exact hys.subset (hsplit ▸ by simp)
    | cons c xs =>
      obtain rfl : e = c := (List.cons.inj hsplit).1
      have hnone := hdisjoint e (hxs.subset List.mem_cons_self) ((hiff he).2 hel)
      rw [(hiff he).2 hem] at hnone
      cases hnone
  refine ⟨pre, a, post, b, l, m, rfl, hdisjoint, hal, ham, hlater, (hiff hb).2 hbl, ?_⟩
  rw [← Bool.not_eq_true, hiff hb]
  exact hbm

/-- As many lines `l` as use up the declaration lines before a place and one more, and then as many
lines `m` as there are declaration lines for. -/
def crowd (pre post : List Text) (l m : Text) : List Text :=
  List.replicate (pre.countP (accepts l)) l ++
    l :: List.replicate ((pre ++ post).countP (accepts m)) m

/-- All of them can be assigned if a declaration line behind the place accepts `l` only. -/
theorem assignable_crowd (hheads : ∀ l ∈ pre ++ post, isDeclaration l = true)
    (hdisjoint : ∀ c ∈ pre, accepts l c = true → accepts m c = false) (hb : b ∈ post)
    (hbl : accepts l b = true) (hbm : accepts m b = false) :
    Assignable (pre ++ post) (crowd pre post l m) := by
  have hmatches : ∀ {a line}, a ∈ pre ++ post → accepts line a = true → Matches a line :=
    fun ha => (fits_iff (hheads _ ha)).1
  refine ⟨_, subperm_of_disjoint hdisjoint hb hbm, ?_⟩
  rw [crowd, List.countP_eq_length_filter, List.countP_eq_length_filter]
  apply List.rel_append (forall₂_replicate fun c hc => ?_)
  · refine .cons (hmatches (List.mem_append_right _ hb) hbl) (forall₂_replicate fun c hc => ?_)
    obtain ⟨hmem, hc⟩ := List.mem_filter.1 hc
    exact hmatches hmem hc
  · obtain ⟨hmem, hc⟩ := List.mem_filter.1 hc
    exact hmatches (List.mem_append_left _ hmem) hc

/-- They are not all taken if the declaration line at the place accepts both. -/
theorem takeDeclarations_crowd_lt (hheads : ∀ l ∈ pre ++ a :: post, isDeclaration l = true)
    (hdisjoint : ∀ c ∈ pre, accepts l c = true → accepts m c = false) (hal : accepts l a = true)
    (ham : accepts m a = true) (stop : Nat) :
    (takeDeclarations ((pre ++ a :: post).map patternOf) stop (crowd pre (a :: post) l m)).2 <
      (crowd pre (a :: post) l m).length := by
  have hcount : (pre ++ a :: post).countP (accepts m) =
      pre.countP (accepts m) + (post.countP (accepts m) + 1) := by
    rw [List.countP_append, List.countP_cons_of_pos ham]
  unfold crowd
  generalize (pre ++ a :: post).countP (accepts m) = k at hcount
  -- the first ones use up that line
  have hnone : ∀ a ∈ ([] : List Text), accepts l a = false := by simp
  obtain ⟨stop', htaken⟩ := @takeDeclarations_replicate _ pre post l a hnone hal stop
    (List.replicate k m)
  rw [List.nil_append, List.nil_append] at htaken
  have hrest : ∀ c ∈ pre.filter (!accepts l ·) ++ post, isDeclaration c = true := by
    intro c hc
    apply hheads c
    rw [List.mem_append, List.mem_filter] at hc
    rw [List.mem_append, List.mem_cons]
    exact hc.imp And.left .inr
  have hle := @takeDeclarations_le_countP _ m hrest stop' k
  have hkept : (pre.filter (!accepts l ·)).countP (accepts m) = pre.countP (accepts m) := by
    rw [List.countP_filter]
    apply List.countP_congr
    intro c hc
    cases hcl : accepts l c with
    | false => simp
    | true => simp [hdisjoint c hc hcl]
  rw [List.countP_append, hkept] at hle
  rw [htaken, List.length_append, List.length_cons, List.length_replicate, List.length_replicate]
  omega

/-- **Where declaration lines are not nested, too few lines are taken of some.** -/
theorem exists_crowded (hheads : ∀ l ∈ heads, isDeclaration l = true)
    (hnot : ¬ heads.Pairwise Nested) : ∃ lines : List Text, lines ≠ [] ∧
      (∀ line ∈ lines, ∃ a ∈ heads, Matches a line) ∧
      ∀ stop, ¬ IsLongestRun heads lines (takeDeclarations (heads.map patternOf) stop lines).2 := by
  obtain ⟨pre, a, post, b, l, m, rfl, hdisjoint, hal, ham, hb, hbl, hbm⟩ :=
    exists_first_of_not_nested hheads hnot
  have ha : a ∈ pre ++ a :: post := List.mem_append_right _ List.mem_cons_self
  refine ⟨crowd pre (a :: post) l m, by simp [crowd], ?_, ?_⟩
  · intro line hline
    simp only [crowd, List.mem_append, List.mem_cons, List.mem_replicate] at hline
    rcases hline with ⟨-, rfl⟩ | rfl | ⟨-, rfl⟩
    · exact ⟨a, ha, (fits_iff (hheads a ha)).1 hal⟩
    · exact ⟨a, ha, (fits_iff (hheads a ha)).1 hal⟩
    · exact ⟨a, ha, (fits_iff (hheads a ha)).1 ham⟩
  · intro stop hlongest
    have hassignable := assignable_crowd hheads hdisjoint hb hbl hbm
    have hall := hlongest.maximal _ (Nat.le_refl _) (by rwa [List.take_length])
    exact absurd (takeDeclarations_crowd_lt hheads hdisjoint hal ham stop) (Nat.not_lt.2 hall)

/-- **Where a declaration line is not looked for, too few lines are taken of some.** -/
theorem exists_overlooked {more : List Text} (hheads : ∀ l ∈ heads, isDeclaration l = true)
    (ha : a ∈ more) (hfeed : .char '\n' ∉ a) : ∃ lines : List Text, lines ≠ [] ∧
      (∀ line ∈ lines, .char '\n' ∉ line) ∧ ∀ stop, ¬ IsLongestRun (heads ++ more) lines
        (takeDeclarations (heads.map patternOf) stop lines).2 := by
  obtain ⟨w, hw⟩ := exists_refilled (trim a)
  have haw : Matches a w := ⟨[], w, [], by simp, rfl, hw, rfl⟩
  have hlength := List.countP_eq_length_filter (p := accepts w) (l := heads)
  refine ⟨List.replicate (heads.countP (accepts w) + 1) w, by simp, ?_, fun stop hlongest => ?_⟩
  · intro line hline
    rw [List.eq_of_mem_replicate hline]
    exact haw.lineFeed_not_mem hfeed
  · have hassignable : Assignable (heads ++ more)
        (List.replicate (heads.countP (accepts w) + 1) w) := by
      refine ⟨heads.filter (accepts w) ++ [a],
        List.filter_sublist.subperm.append (List.singleton_sublist.2 ha).subperm, ?_⟩
      have hmatches : ∀ b ∈ heads.filter (accepts w) ++ [a], Matches b w := by
        intro b hb
        rcases List.mem_append.1 hb with hb | hb
        · obtain ⟨hmem, hfits⟩ := List.mem_filter.1 hb
          exact (fits_iff (hheads b hmem)).1 hfits
        · rwa [List.mem_singleton.1 hb]
      have hall := forall₂_replicate hmatches
      rwa [List.length_append, ← hlength] at hall
    have hall := hlongest.maximal _ (Nat.le_refl _) (by rwa [List.take_length])
    have hle := @takeDeclarations_le_countP _ w hheads stop (heads.countP (accepts w) + 1)
    rw [List.length_replicate] at hall
    omega

end Span

/-! ## Spans of fragments without a block -/

open Declaration

variable {f : Fragment} {t : Text} {pos i : Nat}

/-- How many declaration lines the first span of a fragment from a position on has; none if there is
no such span. -/
def declarationsAt (t : Text) (f : Fragment) (pos : Nat) : Nat :=
  match spanFrom t f pos with
  | .ok (some span) => span.declarations
  | _ => 0

/-- They are those that are taken below the line of the marker. -/
theorem declarationsAt_eq (hflat : f.IsFlat) (hi : searchFrom f.marker t pos = some i) :
    declarationsAt t f pos =
      (Span.takeDeclarations f.patterns (lineEnd t i) (Span.linesBelow t (lineEnd t i))).2 := by
  have hof : ∀ last taken,
      Span.takeDeclarations f.patterns (lineEnd t i) (Span.linesBelow t (lineEnd t i)) =
        (last, taken) → declarationsAt t f pos = taken := by
    intro last taken htaken
    rw [declarationsAt, spanFrom, hi]
    dsimp only
    unfold Span.ofMarker
    dsimp only
    rw [htaken]
    rcases hflat with hblock | hblock
    all_goals
      rw [hblock]
      dsimp only
      by_cases hnone : taken = 0
      · rw [if_pos hnone, hnone]
        rfl
      · rw [if_neg hnone]
        rfl
  exact hof _ _ rfl

/-- Any lines can stand below a marker. -/
theorem exists_linesBelow_eq {m : Text} (hfeed : .char '\n' ∉ m)
    {lines : List Text} (hne : lines ≠ []) (hlines : ∀ l ∈ lines, .char '\n' ∉ l) :
    ∃ t, searchFrom m t 0 = some 0 ∧ Span.linesBelow t (lineEnd t 0) = lines := by
  obtain ⟨first, last, rfl⟩ : ∃ first last, lines = first ++ [last] :=
    ⟨_, _, (List.dropLast_append_getLast hne).symm⟩
  have hfirst : ∀ l ∈ first, .char '\n' ∉ l := fun l hl => hlines l (List.mem_append_left _ hl)
  have hlast : .char '\n' ∉ last := hlines last (by simp)
  have hend := lineEnd_append (z := .char '\n' :: join [.char '\n'] (first ++ [last])) hfeed
    (.inr ⟨_, rfl⟩) []
  rw [List.nil_append, List.nil_append, List.length_nil] at hend
  refine ⟨m ++ .char '\n' :: join [.char '\n'] (first ++ [last]), ?_, ?_⟩
  · rw [searchFrom, if_pos (Nat.zero_le _), List.drop_zero, search_prefix]
    rfl
  · have hjoin : .char '\n' :: join [.char '\n'] (first ++ [last]) =
        first.flatMap (.char '\n' :: ·) ++ .char '\n' :: last := by
      rw [← flatMap_cons_lineFeed hne, List.flatMap_append]
      simp
    rw [hend, Span.linesBelow_append, splitLines_below hfirst hjoin, splitLines_of_not_mem hlast]

/-- The declaration lines of a template. -/
def Fragment.declarationLines (f : Fragment) : List Text :=
  (lines (trimLineFeeds f.template)).filter isDeclaration

/-- Those at the head of the template come first, and between them and the others there is another
line. -/
theorem declarationLines_eq (f : Fragment) : f.declarationLines = f.heads ++
    ((lines (trimLineFeeds f.template)).dropWhile isDeclaration).filter isDeclaration := by
  have hheads : f.heads.filter isDeclaration = f.heads :=
    List.filter_eq_self.2 fun _ => Span.isDeclaration_of_mem_heads
  rw [Fragment.declarationLines, ← List.takeWhile_append_dropWhile (p := isDeclaration)
    (l := lines (trimLineFeeds f.template)), List.filter_append, List.takeWhile_append_dropWhile]
  exact congrArg (· ++ _) hheads

/-- **The longest run is taken in every text exactly if the declaration lines are all at the head of
the template and nested.** In any case, what is taken can be assigned. -/
theorem declarationsAt_isLongestRun (hflat : f.IsFlat) :
    (∀ t pos i, searchFrom f.marker t pos = some i → Assignable f.declarationLines
      ((Span.linesBelow t (lineEnd t i)).take (declarationsAt t f pos))) ∧
    (f.heads = f.declarationLines ∧ f.declarationLines.Pairwise Nested →
      ∀ t pos i, searchFrom f.marker t pos = some i → IsLongestRun f.declarationLines
        (Span.linesBelow t (lineEnd t i)) (declarationsAt t f pos)) ∧
    (.char '\n' ∉ f.marker → ¬ (f.heads = f.declarationLines ∧ f.declarationLines.Pairwise Nested) →
      ∃ t i, searchFrom f.marker t 0 = some i ∧ ¬ IsLongestRun f.declarationLines
        (Span.linesBelow t (lineEnd t i)) (declarationsAt t f 0)) := by
  have hheads : ∀ l ∈ f.heads, isDeclaration l = true := fun _ => Span.isDeclaration_of_mem_heads
  have hpatterns : f.patterns = f.heads.map patternOf := rfl
  have hsplit := declarationLines_eq f
  refine ⟨fun t pos i hi => ?_, fun ⟨hall, hnested⟩ t pos i hi => ?_, fun hfeed hnot => ?_⟩
  · obtain ⟨k, assigned, htaken, -, hsub, hmatches⟩ :=
      Span.exists_takeDeclarations hheads (lineEnd t i) (Span.linesBelow t (lineEnd t i))
    rw [declarationsAt_eq hflat hi, hpatterns, htaken, hsplit]
    exact ⟨assigned, hsub.trans (List.sublist_append_left _ _).subperm, hmatches⟩
  · rw [declarationsAt_eq hflat hi, hpatterns]
    rw [← hall] at hnested ⊢
    exact Span.isLongestRun_of_nested hheads hnested _ _
  · obtain ⟨lines, hne, hlines, hfew⟩ : ∃ lines : List Text, lines ≠ [] ∧
        (∀ line ∈ lines, .char '\n' ∉ line) ∧ ∀ stop, ¬ IsLongestRun f.declarationLines lines
          (Span.takeDeclarations (f.heads.map patternOf) stop lines).2 := by
      by_cases hall : f.heads = f.declarationLines
      · have hcrowded : ¬ f.heads.Pairwise Nested := fun h => hnot ⟨hall, hall ▸ h⟩
        obtain ⟨lines, hne, hmatch, hfew⟩ := Span.exists_crowded hheads hcrowded
        refine ⟨lines, hne, fun l hl => ?_, hall ▸ hfew⟩
        obtain ⟨a, ha, hal⟩ := hmatch l hl
        exact hal.lineFeed_not_mem (lineFeed_not_mem_of_mem_heads ha)
      · obtain ⟨a, ha⟩ : ∃ a, a ∈ ((Text.lines (trimLineFeeds f.template)).dropWhile
            isDeclaration).filter isDeclaration := by
          apply List.exists_mem_of_ne_nil
          intro hnil
          rw [hnil, List.append_nil] at hsplit
          exact hall hsplit.symm
        have hfeed' : .char '\n' ∉ a := by
          intro hmem
          have hbreak := isLineBreak_of_mem_lines
            ((List.dropWhile_suffix _).subset (List.mem_of_mem_filter ha)) hmem
          revert hbreak
          decide
        rw [hsplit]
        exact Span.exists_overlooked hheads ha hfeed'
    obtain ⟨t, ht, hbelow⟩ := exists_linesBelow_eq hfeed hne hlines
    refine ⟨t, 0, ht, ?_⟩
    rw [declarationsAt_eq hflat ht, hbelow]
    exact hfew _

/-! ### A line that is more special than another -/

/-- What is common to both lines. -/
def coreStart : Text := "implementation 'x:core:".toText

/-- A library of any version. -/
def coreLine : Text := "implementation 'x:core:$core'".toText

/-- Its sources. -/
def sourcesLine : Text := "implementation 'x:core:$core:sources'".toText

/-- A fragment with the special line first. -/
def sourcesFirst : Fragment where
  marker := "// m".toText
  template := "implementation 'x:core:$core:sources'\nimplementation 'x:core:$core'".toText
  anchor := .endOfFile

/-- A fragment with the special line last. -/
def sourcesLast : Fragment where
  marker := "// m".toText
  template := "implementation 'x:core:$core'\nimplementation 'x:core:$core:sources'".toText
  anchor := .endOfFile

/-- Both lines below the marker, the special one first. -/
def sourcesText : Text :=
  "// m\nimplementation 'x:core:1.0:sources'\nimplementation 'x:core:1.0'\n".toText

theorem isDeclaration_coreLine : isDeclaration coreLine = true ∧ isDeclaration sourcesLine = true := by
  unfold coreLine sourcesLine
  repeat rw [String.toText_ofList]
  decide

theorem patternOf_coreLine : patternOf coreLine = [coreStart, [.char '\'']] ∧
    patternOf sourcesLine = [coreStart, ":sources'".toText] := by
  unfold coreLine sourcesLine coreStart
  repeat rw [String.toText_ofList]
  decide

/-- Whatever the sources match, the library does, as the rest of the line can be part of the
version. -/
theorem nested_sourcesLine : Nested sourcesLine coreLine := by
  intro l m _ _ hm
  rw [← fits_iff isDeclaration_coreLine.1, patternOf_coreLine.1]
  rw [← fits_iff isDeclaration_coreLine.2, patternOf_coreLine.2] at hm
  obtain ⟨indent, gap, trail, rfl, hindent, hgap, htrail⟩ := exists_of_fits_pair hm
  have hvalue : (gap ++ ":sources".toText).all isValueChar = true := by
    rw [List.all_append, hgap, String.toText_ofList]
    decide
  have hend : ":sources'".toText ++ trail = ":sources".toText ++ ([.char '\''] ++ trail) := by
    repeat rw [String.toText_ofList]
    rfl
  apply fits_indent hindent
  have hdrop : dropIndent (coreStart ++ (gap ++ (":sources'".toText ++ trail))) =
      coreStart ++ ((gap ++ ":sources".toText) ++ ([.char '\''] ++ trail)) := by
    have hstart : coreStart = .char 'i' :: coreStart.tail := by
      unfold coreStart
      rw [String.toText_ofList]
      rfl
    rw [hend, List.append_assoc gap, hstart]
    rfl
  rw [fits, hdrop]
  exact fitsParts_cons hvalue (fitsParts_last htrail)

theorem not_nested_coreLine : ¬ Nested coreLine sourcesLine := by
  have hmatch : ∀ l ∈ ["implementation 'x:core:1.0:sources'".toText,
      "implementation 'x:core:1.0'".toText], fits (patternOf coreLine) l = true := by
    unfold coreLine
    repeat rw [String.toText_ofList]
    decide
  have hsources : fits (patternOf sourcesLine) "implementation 'x:core:1.0:sources'".toText = true ∧
      fits (patternOf sourcesLine) "implementation 'x:core:1.0'".toText = false := by
    unfold sourcesLine
    repeat rw [String.toText_ofList]
    decide
  intro h
  have hwrong := h _ _ ((fits_iff isDeclaration_coreLine.1).1 (hmatch _ List.mem_cons_self))
    ((fits_iff isDeclaration_coreLine.2).1 hsources.1)
    ((fits_iff isDeclaration_coreLine.1).1 (hmatch _ (List.mem_cons_of_mem _ List.mem_cons_self)))
  rw [← fits_iff isDeclaration_coreLine.2, hsources.2] at hwrong
  cases hwrong

theorem declarationLines_sourcesFirst : sourcesFirst.heads = [sourcesLine, coreLine] ∧
    sourcesFirst.declarationLines = [sourcesLine, coreLine] := by
  unfold Fragment.heads Fragment.declarationLines sourcesFirst sourcesLine coreLine
  repeat rw [String.toText_ofList]
  decide

theorem declarationLines_sourcesLast : sourcesLast.declarationLines = [coreLine, sourcesLine] := by
  unfold Fragment.declarationLines sourcesLast sourcesLine coreLine
  repeat rw [String.toText_ofList]
  decide

/-- With the special line first, the longest run is taken in every text, and with the special line
last it is not. -/
theorem declarationsAt_isLongestRun_sources :
    sourcesFirst.IsFlat ∧ (sourcesFirst.heads = sourcesFirst.declarationLines ∧
      sourcesFirst.declarationLines.Pairwise Nested) ∧
    (∀ t pos i, searchFrom sourcesFirst.marker t pos = some i →
      IsLongestRun sourcesFirst.declarationLines (Span.linesBelow t (lineEnd t i))
        (declarationsAt t sourcesFirst pos)) ∧
    sourcesLast.IsFlat ∧ .char '\n' ∉ sourcesLast.marker ∧
      ¬ (sourcesLast.heads = sourcesLast.declarationLines ∧
        sourcesLast.declarationLines.Pairwise Nested) ∧
    ∃ t i, searchFrom sourcesLast.marker t 0 = some i ∧
      ¬ IsLongestRun sourcesLast.declarationLines (Span.linesBelow t (lineEnd t i))
        (declarationsAt t sourcesLast 0) := by
  have hfirst : sourcesFirst.heads = sourcesFirst.declarationLines ∧
      sourcesFirst.declarationLines.Pairwise Nested := by
    rw [declarationLines_sourcesFirst.1, declarationLines_sourcesFirst.2]
    exact ⟨rfl, List.pairwise_pair.2 nested_sourcesLine⟩
  have hlast : ¬ (sourcesLast.heads = sourcesLast.declarationLines ∧
      sourcesLast.declarationLines.Pairwise Nested) := by
    rw [declarationLines_sourcesLast]
    exact fun h => not_nested_coreLine (List.pairwise_pair.1 h.2)
  have hfeed : .char '\n' ∉ sourcesLast.marker := by decide
  exact ⟨.inl rfl, hfirst, (declarationsAt_isLongestRun (.inl rfl)).2.1 hfirst, .inl rfl, hfeed,
    hlast, (declarationsAt_isLongestRun (.inl rfl)).2.2 hfeed hlast⟩

/-- In this text one line is taken, although both are lines of the fragment: the first one uses up
the line of the template that the second one matches. -/
theorem longest_run_missed : sourcesLast.IsFlat ∧
    searchFrom sourcesLast.marker sourcesText 0 = some 0 ∧
    declarationsAt sourcesText sourcesLast 0 = 1 ∧
    ¬ IsLongestRun sourcesLast.declarationLines
      (Span.linesBelow sourcesText (lineEnd sourcesText 0)) (declarationsAt sourcesText sourcesLast 0) := by
  have hsearch : searchFrom sourcesLast.marker sourcesText 0 = some 0 := by
    unfold sourcesLast sourcesText
    repeat rw [String.toText_ofList]
    decide
  have hone : declarationsAt sourcesText sourcesLast 0 = 1 := by
    unfold sourcesLast sourcesText
    repeat rw [String.toText_ofList]
    decide
  have hlines : Span.linesBelow sourcesText (lineEnd sourcesText 0) =
      ["implementation 'x:core:1.0:sources'".toText, "implementation 'x:core:1.0'".toText, []] := by
    unfold sourcesText
    repeat rw [String.toText_ofList]
    decide
  have hfits : fits (patternOf sourcesLine) "implementation 'x:core:1.0:sources'".toText = true ∧
      fits (patternOf coreLine) "implementation 'x:core:1.0'".toText = true := by
    unfold coreLine sourcesLine
    repeat rw [String.toText_ofList]
    decide
  refine ⟨.inl rfl, hsearch, hone, fun hlongest => ?_⟩
  rw [hone, hlines, declarationLines_sourcesLast] at hlongest
  have htwo := hlongest.maximal 2 (by decide) ⟨[sourcesLine, coreLine],
    (List.Perm.swap coreLine sourcesLine []).subperm,
    .cons ((fits_iff isDeclaration_coreLine.2).1 hfits.1)
      (.cons ((fits_iff isDeclaration_coreLine.1).1 hfits.2) .nil)⟩
  exact absurd htwo (by decide)

end Graft
