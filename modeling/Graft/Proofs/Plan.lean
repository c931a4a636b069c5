import Graft.Proofs.Edit.Characters
import Graft.Proofs.Fragment.Order
import Graft.Run.Plan

/-!
# What a plan comes to

A plan ends in a failure, in the text as it was, or in a new text, which is `Valid`: its braces pair
up, and every marker occurs once, with all that its fragment requires. Three things follow that a
run relies on.

> `ofText_of_valid`: there is nothing to do to a valid text.
> `correct_of_unchanged`: where nothing is stale and the text stays as it was, all was correct.
> `not_mem_outcome`: a new text has no characters that are foreign to what it was made from.

The second does not hold with a stale fragment: taking it out and putting it in again can give the
old text back, which is then not looked at again.
-/

namespace Graft

namespace Plan

variable {set : FragmentSet} {versions : VersionSet} {states : Table Standing} {t new : Text}
  {plan : Plan}

/-! ## Valid texts -/

/-- What holds of a text that may be written. -/
structure Valid (set : FragmentSet) (versions : VersionSet) (t : Text) : Prop where
  balanced : balance t = .ok ()
  once : ∀ f ∈ set.fragments, Text.count f.marker t = 1
  complete : ∀ f ∈ set.fragments, missingTexts t f versions = .ok []

/-- All fragments of a set are correct. -/
def AllCorrect (set : FragmentSet) (states : Table Standing) : Prop :=
  ∀ f ∈ set.fragments, states.get? f.marker = some .correct

/-- No fragment of a set is stale. -/
def NoneStale (set : FragmentSet) (states : Table Standing) : Prop :=
  ∀ f ∈ set.fragments, states.get? f.marker ≠ some .stale

theorem AllCorrect.noneStale (h : AllCorrect set states) : NoneStale set states := by
  intro f hf hstale
  rw [h f hf] at hstale
  cases hstale

theorem validateEach_eq_ok_iff {fs : List Fragment} : validateEach versions t fs = .ok () ↔
    ∀ f ∈ fs, Text.count f.marker t = 1 ∧ missingTexts t f versions = .ok [] := by
  induction fs with
  | nil => simp [validateEach]
  | cons f fs ih =>
    rw [List.forall_mem_cons, ← ih, validateEach]
    cases hm : missingTexts t f versions with
    | error e => simp
    | ok missing =>
      dsimp only
      by_cases hc : (missing.isEmpty && Text.count f.marker t == 1) = true
      · rw [if_pos hc]
        obtain ⟨hnil, hone⟩ := Bool.and_eq_true_iff.1 hc
        rw [List.isEmpty_iff.1 hnil]
        simp [eq_of_beq hone]
      · rw [if_neg hc]
        constructor
        · intro h
          cases h
        · rintro ⟨⟨hone, hnil⟩, -⟩
          rw [Except.ok.injEq] at hnil
          simp [hnil, hone] at hc

/-- The texts that pass the last check are the valid ones. -/
theorem validate_eq_ok_iff : validate set versions t = .ok () ↔ Valid set versions t := by
  unfold validate
  split
  · next e hb =>
    constructor
    · intro h
      cases h
    · intro h
      rw [h.balanced] at hb
      cases hb
  · next hb =>
    rw [validateEach_eq_ok_iff]
    exact ⟨fun h => ⟨hb, fun f hf => (h f hf).1, fun f hf => (h f hf).2⟩,
      fun h f hf => ⟨h.once f hf, h.complete f hf⟩⟩

/-- In a valid text every fragment is correct. -/
theorem Valid.standing (h : Valid set versions t) {f : Fragment} (hf : f ∈ set.fragments) :
    standing t f versions = .ok .correct :=
  standing_eq_correct_iff.2 ⟨h.once f hf, h.complete f hf⟩

theorem Valid.standings (h : Valid set versions t) :
    ∃ states, standings t set.fragments versions = .ok states ∧ AllCorrect set states := by
  obtain ⟨states, hstates⟩ := exists_standings fun f hf => ⟨_, h.standing hf⟩
  refine ⟨states, hstates, ?_⟩
  intro f hf
  obtain ⟨s, hs, hget⟩ := get?_standings hstates hf
  rw [h.standing hf, Except.ok.injEq] at hs
  rw [hget, ← hs]

/-! ## The parts of a plan -/

/-- What a plan is made of. -/
theorem ofText_eq_ok (h : ofText set versions t = .ok plan) :
    balance t = .ok () ∧ standings t set.fragments versions = .ok plan.states ∧
      plan.removes = !(stale set plan.states).isEmpty ∧
      plan.adds = !(missingMarkers set t).isEmpty ∧
      plan.outcome = match (edit set versions plan.states t).2 with
        | .error e => .error e
        | .ok new => settle set versions t new := by
  unfold ofText at h
  split at h
  · cases h
  · next hbalance =>
    split at h
    · cases h
    · next states hstates =>
      cases h
      exact ⟨hbalance, hstates, rfl, rfl, rfl⟩

theorem settle_eq_some {old text : Text} (h : settle set versions old new = .ok (some text)) :
    new = text ∧ text ≠ old ∧ Valid set versions text := by
  unfold settle at h
  split at h
  · cases h
  · next hne =>
    split at h
    · cases h
    · next hvalid =>
      cases h
      exact ⟨rfl, hne, validate_eq_ok_iff.1 hvalid⟩

theorem settle_eq_none {old : Text} (h : settle set versions old new = .ok none) : new = old := by
  unfold settle at h
  split at h
  · next heq => exact heq
  · split at h
    · cases h
    · cases h

/-- A new text comes from an edit and is valid. -/
theorem outcome_eq_some {text : Text} (h : ofText set versions t = .ok plan)
    (ho : plan.outcome = .ok (some text)) :
    (edit set versions plan.states t).2 = .ok text ∧ text ≠ t ∧ Valid set versions text := by
  obtain ⟨-, -, -, -, houtcome⟩ := ofText_eq_ok h
  rw [houtcome] at ho
  split at ho
  · cases ho
  · next new hnew =>
    obtain ⟨rfl, hne, hvalid⟩ := settle_eq_some ho
    exact ⟨hnew, hne, hvalid⟩

/-- Where there is no new text, the edit gives the old one back. -/
theorem outcome_eq_none (h : ofText set versions t = .ok plan) (ho : plan.outcome = .ok none) :
    (edit set versions plan.states t).2 = .ok t := by
  obtain ⟨-, -, -, -, houtcome⟩ := ofText_eq_ok h
  rw [houtcome] at ho
  split at ho
  · cases ho
  · next new hnew =>
    rw [hnew, settle_eq_none ho]

theorem stale_eq_nil_iff : stale set states = [] ↔ NoneStale set states := by
  rw [stale, List.filter_eq_nil_iff]
  simp [NoneStale]

/-- A plan takes something out exactly when a fragment is stale. -/
theorem removes_eq_false_iff (h : ofText set versions t = .ok plan) :
    plan.removes = false ↔ NoneStale set plan.states := by
  obtain ⟨-, -, hremoves, -, -⟩ := ofText_eq_ok h
  rw [hremoves, ← stale_eq_nil_iff, Bool.not_eq_false', List.isEmpty_iff]

/-- A plan puts something in exactly when a marker does not occur. -/
theorem adds_eq_false_iff (h : ofText set versions t = .ok plan) :
    plan.adds = false ↔ missingMarkers set t = [] := by
  obtain ⟨-, -, -, hadds, -⟩ := ofText_eq_ok h
  rw [hadds, Bool.not_eq_false', List.isEmpty_iff]

/-! ## Nothing to do -/

theorem edit_of_noneStale (h : NoneStale set states) :
    edit set versions states t = complete set versions t := by
  rw [edit, stale_eq_nil_iff.2 h, removeAll]
  rfl

theorem complete_of_nothing (h : missingMarkers set t = []) :
    complete set versions t = ([], .ok t) := by
  have hchosen : (set.fragments.filter fun f => ([] : List Text).elem f.marker) = [] :=
    List.filter_eq_nil_iff.2 fun f _ => by simp
  have horder : set.insertionOrder [] = .ok [] := by
    rw [FragmentSet.insertionOrder, Fragment.insertionOrder, hchosen]
    rfl
  rw [complete, h, horder]
  rfl

/-- A plan that neither takes out nor puts in leaves the text as it is. -/
theorem outcome_of_idle (h : ofText set versions t = .ok plan) (hremoves : plan.removes = false)
    (hadds : plan.adds = false) : plan.outcome = .ok none := by
  have hstale := (removes_eq_false_iff h).1 hremoves
  have hmissing := (adds_eq_false_iff h).1 hadds
  obtain ⟨-, -, -, -, houtcome⟩ := ofText_eq_ok h
  rw [houtcome, edit_of_noneStale hstale, complete_of_nothing hmissing]
  show settle set versions t t = .ok none
  rw [settle, if_pos rfl]

/-- A marker that occurs once is not missing. -/
theorem Valid.missingMarkers_eq_nil (h : Valid set versions t) : missingMarkers set t = [] := by
  rw [missingMarkers, List.filter_eq_nil_iff]
  intro m hm
  obtain ⟨f, hf, rfl⟩ := List.mem_map.1 hm
  intro hnot
  have hzero := (Text.count_eq_zero_iff (set.marker_ne_nil hf) t).2 (by simpa using hnot)
  have hone := h.once f hf
  omega

/-- There is nothing to do to a valid text. -/
theorem ofText_of_valid (h : Valid set versions t) :
    ∃ plan, ofText set versions t = .ok plan ∧ plan.removes = false ∧ plan.adds = false ∧
      AllCorrect set plan.states := by
  obtain ⟨states, hstates, hcorrect⟩ := h.standings
  have hmissing := h.missingMarkers_eq_nil
  refine ⟨_, by rw [ofText, h.balanced]; dsimp only; rw [hstates], ?_, ?_, hcorrect⟩
  · dsimp only
    rw [stale_eq_nil_iff.2 hcorrect.noneStale]
    rfl
  · dsimp only
    rw [hmissing]
    rfl

/-! ## Step by step -/

theorem removeAll_cons {f : Fragment} (h : remove t f = .ok new) (fs : List Fragment) :
    (removeAll t (f :: fs)).2 = (removeAll new fs).2 := by
  rw [removeAll, h]

theorem insertAll_cons {f : Fragment} (h : insert t f versions = .ok new) (fs : List Fragment) :
    (insertAll versions t (f :: fs)).2 = (insertAll versions new fs).2 := by
  rw [insertAll, h]

/-- An edit completes what is left when the stale fragments are gone. -/
theorem edit_of_removeAll (h : (removeAll t (stale set states)).2 = .ok new) :
    (edit set versions states t).2 = (complete set versions new).2 := by
  unfold edit
  split
  · next heq =>
    rw [heq] at h
    cases h
  · next heq =>
    rw [heq] at h
    cases h
    rfl

/-- A new text that is valid is what comes of an edit, unless it is the old one. -/
theorem settle_of_valid (h : Valid set versions new) (old : Text) :
    settle set versions old new = .ok (if new = old then none else some new) := by
  rw [settle]
  split
  · rfl
  · rw [validate_eq_ok_iff.2 h]

/-! ## Unchanged texts -/

/-- Fragments that wait neither for themselves nor for later ones are taken as they come. -/
theorem takeReady_eq {n : Nat} {fs : List Fragment} (hself : ∀ f ∈ fs, f.waitsFor f = false)
    (hlater : fs.Pairwise fun f g => f.waitsFor g = false) (hn : fs.length ≤ n) :
    Fragment.takeReady n fs = .ok fs := by
  induction fs generalizing n with
  | nil => cases n <;> rfl
  | cons f fs ih =>
    obtain ⟨hf, hfs⟩ := List.forall_mem_cons.1 hself
    obtain ⟨hwait, hrest⟩ := List.pairwise_cons.1 hlater
    have hready : Fragment.isReady (f :: fs) f = true := by
      rw [Fragment.isReady, List.all_eq_true]
      intro g hg
      rcases List.mem_cons.1 hg with rfl | hg
      · rw [hf]
        rfl
      · rw [hwait g hg]
        rfl
    cases n with
    | zero => cases hn
    | succ n =>
      rw [Fragment.takeReady.eq_3 _ _ (List.cons_ne_nil f fs), List.find?_cons_of_pos hready]
      dsimp only
      rw [List.erase_cons_head, ih hfs hrest (Nat.le_of_succ_le_succ hn)]
      rfl

/-- What is put in are the fragments whose markers do not occur. -/
theorem insertionOrder_perm {fs : List Fragment}
    (h : set.insertionOrder (missingMarkers set t) = .ok fs) :
    fs.Perm (set.fragments.filter fun f => !t.contains f.marker) := by
  have hperm := Fragment.takeReady_perm h
  -- a fragment is chosen by its marker, and so exactly if its marker is missing
  rwa [List.filter_congr] at hperm
  intro f hf
  rw [Bool.eq_iff_iff, List.elem_iff, missingMarkers, List.mem_filter]
  exact ⟨fun h => h.2, fun h => ⟨List.mem_map_of_mem hf, h⟩⟩

theorem insertionOrder_eq_ok {fs : List Fragment}
    (h : set.insertionOrder (missingMarkers set t) = .ok fs) :
    (∀ f ∈ fs, f ∈ set.fragments ∧ t.contains f.marker = false) ∧
      (fs = [] → ∀ f ∈ set.fragments, t.contains f.marker = true) := by
  have hperm := insertionOrder_perm h
  refine ⟨?_, ?_⟩
  · intro f hf
    simpa using hperm.mem_iff.1 hf
  · rintro rfl f hf
    have hnil := List.filter_eq_nil_iff.1 (List.nil_perm.1 hperm) f hf
    simpa using hnil

/-- Putting fragments in one after the other takes away nothing but blanks. -/
theorem le_solid_insertAll {fs : List Fragment} (h : (insertAll versions t fs).2 = .ok new) :
    t.solid ≤ new.solid := by
  induction fs generalizing t with
  | nil =>
    cases h
    exact Nat.le_refl _
  | cons f fs ih =>
    unfold insertAll at h
    split at h
    · cases h
    · next t' ht' =>
      have := (solid_insert ht').1
      have := ih h
      omega

/-- If putting fragments in gives the text back, no marker was missing. -/
theorem contains_of_complete (h : (complete set versions t).2 = .ok t) :
    ∀ f ∈ set.fragments, t.contains f.marker = true := by
  unfold complete at h
  split at h
  · cases h
  · next fs hfs =>
    obtain ⟨hmem, hnil⟩ := insertionOrder_eq_ok hfs
    cases fs with
    | nil => exact hnil rfl
    | cons f fs =>
      -- the first marker brings in characters that nothing after it takes away
      exfalso
      obtain ⟨hf, hnot⟩ := hmem f List.mem_cons_self
      have hsolid : f.marker.solid ≠ 0 := by
        intro hzero
        have hblank := (Text.solid_eq_zero_iff f.marker).1 hzero
        rw [set.marker_not_blank hf] at hblank
        cases hblank
      unfold insertAll at h
      split at h
      · cases h
      · next t' ht' =>
        have := (solid_insert ht').2 hnot
        have := le_solid_insertAll h
        omega

/-- Where nothing is stale and the text stays as it was, all was correct. -/
theorem correct_of_unchanged (h : ofText set versions t = .ok plan) (ho : plan.outcome = .ok none)
    (hstale : NoneStale set plan.states) : AllCorrect set plan.states := by
  have hedit := outcome_eq_none h ho
  rw [edit_of_noneStale hstale] at hedit
  obtain ⟨-, hstates, -, -, -⟩ := ofText_eq_ok h
  intro f hf
  obtain ⟨s, hs, hget⟩ := get?_standings hstates hf
  cases s with
  | correct => exact hget
  | stale => exact absurd hget (hstale f hf)
  | absent =>
    exfalso
    have hzero := standing_eq_absent_iff.1 hs
    rw [Text.count_eq_zero_iff (set.marker_ne_nil hf), contains_of_complete hedit f hf] at hzero
    cases hzero

/-! ## Foreign characters -/

section Foreign

variable {c : CodePoint}

theorem not_mem_removeAll {fs : List Fragment} (hc : c ∉ t) (h : (removeAll t fs).2 = .ok new) :
    c ∉ new := by
  induction fs generalizing t with
  | nil =>
    cases h
    exact hc
  | cons f fs ih =>
    unfold removeAll at h
    split at h
    · cases h
    · next t' ht' => exact ih (not_mem_remove hc ht') h

theorem not_mem_insertAll {fs : List Fragment}
    (hfs : ∀ f ∈ fs, ∀ rendered, f.render versions = .ok rendered → c ∉ rendered)
    (hbreak : c ≠ .char '\n') (hspace : c ≠ .char ' ') (hc : c ∉ t)
    (h : (insertAll versions t fs).2 = .ok new) : c ∉ new := by
  induction fs generalizing t with
  | nil =>
    cases h
    exact hc
  | cons f fs ih =>
    unfold insertAll at h
    split at h
    · cases h
    · next t' ht' =>
      refine ih (fun g hg => hfs g (List.mem_cons_of_mem f hg)) ?_ h
      exact not_mem_insert (hfs f List.mem_cons_self) hbreak hspace hc ht'

theorem not_mem_complete
    (hset : ∀ f ∈ set.fragments, ∀ rendered, f.render versions = .ok rendered → c ∉ rendered)
    (hbreak : c ≠ .char '\n') (hspace : c ≠ .char ' ') (hc : c ∉ t)
    (h : (complete set versions t).2 = .ok new) : c ∉ new := by
  unfold complete at h
  split at h
  · cases h
  · next fs hfs =>
    refine not_mem_insertAll (fun f hf => ?_) hbreak hspace hc h
    exact hset f ((insertionOrder_eq_ok hfs).1 f hf).1

/-- A new text has no characters, line feeds and spaces apart, that are neither in the old text nor
in the rendered fragments. -/
theorem not_mem_outcome
    (hset : ∀ f ∈ set.fragments, ∀ rendered, f.render versions = .ok rendered → c ∉ rendered)
    (hbreak : c ≠ .char '\n') (hspace : c ≠ .char ' ') (hc : c ∉ t)
    (h : ofText set versions t = .ok plan) (ho : plan.outcome = .ok (some new)) : c ∉ new := by
  obtain ⟨hedit, -, -⟩ := outcome_eq_some h ho
  unfold edit at hedit
  split at hedit
  · cases hedit
  · next actions t' hremoved =>
    have hremain : c ∉ t' := by
      apply not_mem_removeAll hc
      rw [hremoved]
    exact not_mem_complete hset hbreak hspace hremain hedit

/-- A new text can be written if the old text and the rendered fragments can. -/
theorem writes_outcome (hset : ∀ f ∈ set.fragments, ∀ rendered,
      f.render versions = .ok rendered → Encoding.utf8.writes rendered = true)
    (ht : Encoding.utf8.writes t = true) (h : ofText set versions t = .ok plan)
    (ho : plan.outcome = .ok (some new)) : Encoding.utf8.writes new = true := by
  rw [Encoding.writes_utf8_iff] at ht ⊢
  intro half
  refine not_mem_outcome (fun f hf rendered hr => ?_) (by simp) (by simp) (ht half) h ho
  exact Encoding.writes_utf8_iff.1 (hset f hf rendered hr) half

end Foreign

end Plan

end Graft
