import Graft.Edit.Standing
import Graft.Fragment.Set
import Graft.Proofs.Steps

/-!
# How fragments stand

A fragment is correct exactly when its marker occurs once and nothing that it requires is missing
(`standing_eq_correct_iff`), and absent exactly when its marker does not occur at all
(`standing_eq_absent_iff`). The table of standings is looked up by marker, so it tells these apart
only as long as markers are distinct, which the check of a set sees to (`FragmentSet.markers_nodup`).

> `get?_standings`: what the table has under the marker of a fragment is how that fragment stands.
-/

namespace Graft

/-! ## Occurrences -/

namespace Text

/-- A pattern is counted at least once if it occurs, and not at all if it does not. -/
theorem countSkipping_eq_zero_iff {p : Text} (hp : p ≠ []) (t : Text) :
    countSkipping p 0 t = 0 ↔ search p t = none := by
  induction t with
  | nil => simp [countSkipping, search, hp]
  | cons c r ih =>
    unfold countSkipping search
    by_cases h : p.isPrefixOf (c :: r) = true
    · rw [if_pos h, if_pos h]
      constructor
      · intro hzero
        omega
      · intro hnone
        cases hnone
    · rw [if_neg h, if_neg h, Option.map_eq_none_iff]
      exact ih

theorem count_eq_zero_iff {p : Text} (hp : p ≠ []) (t : Text) :
    count p t = 0 ↔ t.contains p = false := by
  rw [count, if_neg (by simpa using hp), countSkipping_eq_zero_iff hp, contains,
    Option.isSome_eq_false_iff, Option.isNone_iff_eq_none]

end Text

/-! ## Tables with distinct keys -/

namespace Table

variable {α : Type} {key : Text} {value : α}

/-- Entries put under other keys leave what is under a key alone. -/
theorem get?_putAll_of_not_mem {more : Table α} (h : key ∉ more.map (·.1)) (table : Table α) :
    get? key (putAll table more) = get? key table := by
  induction more generalizing table with
  | nil => rfl
  | cons e rest ih =>
    simp only [List.map_cons, List.mem_cons, not_or] at h
    show get? key (putAll (put e.1 e.2 table) rest) = _
    rw [ih h.2, get?_put_of_ne h.1]

/-- Of entries with distinct keys none is lost. -/
theorem get?_putAll_of_mem {more : Table α} (h : (more.map (·.1)).Nodup)
    (hmem : (key, value) ∈ more) (table : Table α) :
    get? key (putAll table more) = some value := by
  induction more generalizing table with
  | nil => cases hmem
  | cons e rest ih =>
    rw [List.map_cons, List.nodup_cons] at h
    show get? key (putAll (put e.1 e.2 table) rest) = _
    rcases List.mem_cons.1 hmem with rfl | hmem
    · rw [get?_putAll_of_not_mem h.1, get?_put_self]
    · exact ih h.2 hmem _

end Table

/-! ## Checked sets -/

namespace Fragment

/-- What passes the check one by one has markers that are not blank, of one line, distinct and not
seen. -/
theorem markers_of_checkEach {fs : List Fragment} {seen : List Text}
    (h : checkEach seen fs = .ok ()) :
    (∀ f ∈ fs, Text.allBlank f.marker = false ∧ .char '\n' ∉ f.marker ∧ f.marker ∉ seen) ∧
      (fs.map (·.marker)).Nodup := by
  induction fs generalizing seen with
  | nil => simp
  | cons f fs ih =>
    unfold checkEach at h
    split at h
    · cases h
    · next hblank =>
      split at h
      · cases h
      · next hline =>
        split at h
        · cases h
        · next hseen =>
          split at h
          · cases h
          · split at h
            · cases h
            · obtain ⟨hrest, hnodup⟩ := ih h
              have hnot : f.marker ∉ seen := by simpa using hseen
              -- the fragments after this one were checked with its marker among those seen
              refine ⟨?_, ?_⟩
              · intro g hg
                rcases List.mem_cons.1 hg with rfl | hg
                · exact ⟨by simpa using hblank, by simpa using hline, hnot⟩
                · obtain ⟨hsolid, hfeed, hunseen⟩ := hrest g hg
                  exact ⟨hsolid, hfeed, fun hmem => hunseen (List.mem_cons_of_mem _ hmem)⟩
              · rw [List.map_cons, List.nodup_cons]
                refine ⟨?_, hnodup⟩
                intro hmem
                obtain ⟨g, hg, heq⟩ := List.mem_map.1 hmem
                apply (hrest g hg).2.2
                rw [heq]
                exact List.mem_cons_self

end Fragment

namespace FragmentSet

variable (set : FragmentSet)

theorem checkEach_eq_ok : Fragment.checkEach [] set.fragments = .ok () := by
  obtain ⟨u, hchecked, -⟩ := exists_of_bind_eq_ok set.checked
  exact hchecked

theorem markers_nodup : set.markers.Nodup :=
  (Fragment.markers_of_checkEach set.checkEach_eq_ok).2

theorem marker_not_blank {f : Fragment} (hf : f ∈ set.fragments) :
    Text.allBlank f.marker = false :=
  ((Fragment.markers_of_checkEach set.checkEach_eq_ok).1 f hf).1

theorem lineFeed_not_mem_marker {f : Fragment} (hf : f ∈ set.fragments) : .char '\n' ∉ f.marker :=
  ((Fragment.markers_of_checkEach set.checkEach_eq_ok).1 f hf).2.1

theorem marker_ne_nil {f : Fragment} (hf : f ∈ set.fragments) : f.marker ≠ [] := by
  intro h
  have := set.marker_not_blank hf
  rw [h] at this
  cases this

end FragmentSet

/-! ## Standings -/

variable {document : Text} {f : Fragment} {fs : List Fragment} {versions : VersionSet}

theorem standing_eq_correct_iff : standing document f versions = .ok .correct ↔
    Text.count f.marker document = 1 ∧ missingTexts document f versions = .ok [] := by
  unfold standing
  split
  · next h => simp [h]
  · next h =>
    rw [h]
    constructor
    · intro hs
      obtain ⟨missing, hmissing, heq⟩ := exists_of_map_eq_ok hs
      split at heq
      · next hempty =>
        rw [List.isEmpty_iff.1 hempty] at hmissing
        exact ⟨rfl, hmissing⟩
      · cases heq
    · rintro ⟨-, hmissing⟩
      rw [hmissing]
      rfl
  · next h0 h1 =>
    constructor
    · intro hs
      cases hs
    · intro h
      exact absurd h.1 h1

theorem standing_eq_absent_iff : standing document f versions = .ok .absent ↔
    Text.count f.marker document = 0 := by
  unfold standing
  split
  · next h => simp [h]
  · next h =>
    rw [h]
    constructor
    · intro hs
      obtain ⟨missing, -, heq⟩ := exists_of_map_eq_ok hs
      split at heq
      · cases heq
      · cases heq
    · intro h0
      cases h0
  · next h0 h1 =>
    constructor
    · intro hs
      cases hs
    · intro h
      exact absurd h h0

/-- Where its marker occurs once, a fragment is stale or nothing is missing from it. -/
theorem standing_cases {required : List Text} (honce : Text.count f.marker document = 1)
    (hrequired : f.requiredTexts versions = .ok required) :
    standing document f versions = .ok .stale ∨
      standing document f versions = .ok .correct ∧ missingTexts document f versions = .ok [] := by
  obtain ⟨missing, hmissing⟩ : ∃ missing, missingTexts document f versions = .ok missing := by
    rw [missingTexts, hrequired]
    rcases spanFrom document f 0 with e | (_ | s)
    · exact ⟨required, rfl⟩
    · exact ⟨required, rfl⟩
    · exact ⟨_, rfl⟩
  cases missing with
  | nil => exact .inr ⟨standing_eq_correct_iff.2 ⟨honce, hmissing⟩, hmissing⟩
  | cons text rest =>
    refine .inl ?_
    rw [standing, honce, hmissing]
    rfl

/-- What the table has under the marker of a fragment is how that fragment stands. -/
theorem get?_standings {set : FragmentSet} {states : Table Standing}
    (h : standings document set.fragments versions = .ok states) (hf : f ∈ set.fragments) :
    ∃ s, standing document f versions = .ok s ∧ states.get? f.marker = some s := by
  obtain ⟨entries, hentries, rfl⟩ := exists_of_map_eq_ok h
  have hkeys : entries.map (·.1) = set.markers := by
    refine map_of_mapM_eq_ok ?_ hentries
    intro g e he
    obtain ⟨s, -, rfl⟩ := exists_of_map_eq_ok he
    rfl
  obtain ⟨e, hmem, he⟩ := exists_mem_of_mapM_eq_ok hentries hf
  obtain ⟨s, hs, rfl⟩ := exists_of_map_eq_ok he
  refine ⟨s, hs, Table.get?_putAll_of_mem ?_ hmem []⟩
  rw [hkeys]
  exact set.markers_nodup

/-- There is a table if each fragment stands somehow. -/
theorem exists_standings (h : ∀ f ∈ fs, ∃ s, standing document f versions = .ok s) :
    ∃ states, standings document fs versions = .ok states := by
  obtain ⟨entries, hentries⟩ : ∃ entries,
      (fs.mapM fun f => (f.marker, ·) <$> standing document f versions) = .ok entries := by
    refine exists_mapM_eq_ok ?_
    intro f hf
    obtain ⟨s, hs⟩ := h f hf
    refine ⟨(f.marker, s), ?_⟩
    rw [hs]
    rfl
  refine ⟨.ofEntries entries, ?_⟩
  rw [standings, hentries]
  rfl

end Graft
