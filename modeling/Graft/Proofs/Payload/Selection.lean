import Graft.Proofs.Payload.Conversion
import Graft.Proofs.Steps
import Graft.Proofs.Text.Blank

/-!
# Selecting a declared version set

The names of version sets meet twice. When a fragment file is read they are put into lower case, and
of names that are the same then the last one stays; when a set is asked for, the name is put into
lower case and loses the blanks around it before that. Nothing keeps a file from having names that
the one step joins and the other cannot reach.

> `select_declared`: when a set of a file is selected by its name.
> `declared_not_selected`: two ways in which it is not.

Lower case is no obstacle of its own: it shortens no text, so a name that has lost something
(`eq_of_lower_eq`) is another one in lower case, too.
-/

namespace Graft

/-! ## The entry that stays -/

namespace Table

variable {α : Type} {key : Text}

/-- The last entry put under a key is found there. -/
theorem get?_putAll (key : Text) (table more : Table α) : get? key (putAll table more) =
    ((more.reverse.find? (·.1 = key)).map (·.2)).or (get? key table) := by
  induction more generalizing table with
  | nil => rfl
  | cons e rest ih =>
    show get? key (putAll (put e.1 e.2 table) rest) = _
    rw [ih, List.reverse_cons, List.find?_append]
    -- the first entry is found only if nothing behind it has its key
    cases rest.reverse.find? (·.1 = key) with
    | some found => rfl
    | none =>
      by_cases hkey : e.1 = key
      · subst hkey
        simp
      · simp [hkey, get?_put_of_ne (Ne.symm hkey)]

theorem get?_ofEntries (key : Text) (entries : Table α) :
    get? key (ofEntries entries) = (entries.reverse.find? (·.1 = key)).map (·.2) := by
  rw [ofEntries, get?_putAll]
  exact Option.or_none

end Table

/-! ## Names in lower case -/

namespace Text

variable {s t : Text}

/-- Only one character has a form of two. -/
theorem length_lowerChar (seen : Text) (c : CodePoint) (rest : Text) :
    (lowerChar seen c rest).length = if c.toNat = 0x130 then 2 else 1 := by
  unfold lowerChar
  split
  · next h =>
    rw [if_neg (by omega)]
    rfl
  · split
    · next h =>
      rw [h, if_neg (show ¬ capitalSigma.toNat = 0x130 by decide)]
      rfl
    · split <;> rfl

theorem length_lowerAfter (seen t : Text) :
    (lowerAfter seen t).length = t.length + t.countP (·.toNat = 0x130) := by
  induction t generalizing seen with
  | nil => rfl
  | cons c r ih =>
    rw [lowerAfter, List.length_append, length_lowerChar, ih, List.length_cons, List.countP_cons]
    simp only [decide_eq_true_eq]
    split <;> omega

/-- A text that has lost something is another one in lower case, too. -/
theorem eq_of_lower_eq (hsub : s.Sublist t) (h : lower s = lower t) : s = t := by
  have hlength := congrArg List.length h
  rw [lower, lower, length_lowerAfter, length_lowerAfter] at hlength
  have hle := hsub.length_le
  have hcount := hsub.countP_le (p := fun c => decide (c.toNat = 0x130))
  exact hsub.eq_of_length (by omega)

theorem trim_sublist (t : Text) : (trim t).Sublist t := by
  obtain ⟨b, hb, -⟩ := exists_trimRight_append (trimLeft t)
  have hprefix : trim t <+: trimLeft t := ⟨b, hb.symm⟩
  exact hprefix.sublist.trans (List.dropWhile_sublist _)

end Text

namespace Payload

variable {v w u : Json} {name : Text} {fields before after : List (Text × Json)} {set : VersionSet}

/-- The last field that has a name, if its key is put into lower case. -/
def lastNamed (name : Text) (fields : List (Text × Json)) : Option (Text × Json) :=
  fields.reverse.find? fun e => Text.lower e.1 = name

/-- A version set has the values of an object, in whatever order. -/
def HasValues (v : Json) (set : VersionSet) : Prop :=
  ∀ key, v.get? key = (set.get? key).map .str

theorem hasValues_of_describes (h : DescribesVersions v set) : HasValues v set := by
  intro key
  rw [h]
  show Table.get? key (set.versions.map _) = (Table.get? key set.versions).map _
  induction set.versions with
  | nil => rfl
  | cons e rest ih =>
    rw [List.map_cons, Table.get?, Table.get?]
    split
    · rfl
    · exact ih

theorem mem_of_lastNamed {e : Text × Json} (h : lastNamed name fields = some e) :
    e ∈ fields ∧ Text.lower e.1 = name :=
  ⟨List.mem_reverse.1 (List.mem_of_find?_eq_some h), by simpa using List.find?_some h⟩

theorem lastNamed_of_not_named (h : ∀ e ∈ after, Text.lower e.1 ≠ Text.lower name) :
    lastNamed (Text.lower name) (before ++ (name, u) :: after) = some (name, u) := by
  have hafter : after.reverse.find? (fun e => Text.lower e.1 = Text.lower name) = none :=
    List.find?_eq_none.2 fun e he => by simpa using h e (List.mem_reverse.1 he)
  simp [lastNamed, List.find?_append, hafter]

/-! ## What is selected -/

section Accepted

variable (hv : validate v = .ok ()) (hsets : v.get? "version_sets".toText = some (.obj fields))

include hsets

theorem get?_versionSetTable (key : Text) : (versionSetTable v).get? key =
    (lastNamed key fields).map fun e => ⟨Text.lower e.1, textTable e.2⟩ := by
  rw [versionSetTable, Table.get?_ofEntries, hsets, ← List.map_reverse]
  exact (congrArg _ (List.find?_map ..)).trans (Option.map_map ..)

theorem select_eq_error (h : lastNamed (VersionSet.selector name) fields = none) :
    ∃ e, VersionSet.select (versionSetTable v) (some name) = .error e := by
  rw [VersionSet.select, Option.getD_some, get?_versionSetTable hsets, h]
  exact ⟨_, rfl⟩

include hv

theorem exists_select {e : Text × Json} (h : lastNamed (VersionSet.selector name) fields = some e) :
    ∃ set, VersionSet.select (versionSetTable v) (some name) = .ok set ∧
      set.name = VersionSet.selector name ∧ DescribesVersions e.2 set := by
  obtain ⟨hmem, hname⟩ := mem_of_lastNamed h
  obtain ⟨_, hfields, hversions⟩ := (validate_eq_ok_iff.1 hv).versionSets _ hsets
  cases hfields
  rw [VersionSet.select, Option.getD_some, get?_versionSetTable hsets, h]
  exact ⟨_, rfl, hname, (describesSet_textTable (hversions e hmem)).2.2⟩

/-- What is selected is what the last field of the name describes. -/
theorem exists_lastNamed (h : VersionSet.select (versionSetTable v) (some name) = .ok set) :
    ∃ e, lastNamed (VersionSet.selector name) fields = some e ∧
      set.name = VersionSet.selector name ∧ DescribesVersions e.2 set := by
  cases hlast : lastNamed (VersionSet.selector name) fields with
  | none =>
    obtain ⟨_, herror⟩ := select_eq_error hsets hlast
    rw [h] at herror
    cases herror
  | some e =>
    obtain ⟨_, hset, hselected⟩ := exists_select hv hsets hlast
    cases h.symm.trans hset
    exact ⟨e, rfl, hselected⟩

end Accepted

/-- A set of an accepted file is selected by its name, up to the order of its values, if and only if
the last set whose name is the name asked for, both in lower case and the one asked for without the
blanks around it, has its values. So it is if the name has no blanks around it and no later name is
the same in lower case. A set whose name has blanks around it is never selected itself. -/
theorem select_declared (hv : validate v = .ok ())
    (hsets : v.get? "version_sets".toText = some (.obj (before ++ (name, u) :: after))) :
    ∃ table, versionSets v = .ok table ∧
      ((∃ set, VersionSet.select table (some name) = .ok set ∧ HasValues u set) ↔
        ∃ e, lastNamed (VersionSet.selector name) (before ++ (name, u) :: after) = some e ∧
          ∀ key, e.2.get? key = u.get? key) ∧
      (Text.trim name = name → (∀ e ∈ after, Text.lower e.1 ≠ Text.lower name) →
        ∃ set, VersionSet.select table (some name) = .ok set ∧ set.name = Text.lower name ∧
          DescribesVersions u set) ∧
      (Text.trim name ≠ name → ∀ set, VersionSet.select table (some name) = .ok set →
        set.name ≠ Text.lower name) := by
  refine ⟨versionSetTable v, versionSets_of_validate hv, ⟨?_, ?_⟩, fun htrim hafter => ?_,
    fun htrim set hset hname => htrim ?_⟩
  · rintro ⟨set, hset, hvalues⟩
    obtain ⟨e, hlast, -, hdescribes⟩ := exists_lastNamed hv hsets hset
    exact ⟨e, hlast, fun key =>
      (hasValues_of_describes hdescribes key).trans (hvalues key).symm⟩
  · rintro ⟨e, hlast, hsame⟩
    obtain ⟨set, hset, -, hdescribes⟩ := exists_select hv hsets hlast
    exact ⟨set, hset, fun key => (hsame key).symm.trans (hasValues_of_describes hdescribes key)⟩
  · have hselector : VersionSet.selector name = Text.lower name := by
      rw [VersionSet.selector, htrim]
    rw [← hselector]
    exact exists_select hv hsets (hselector ▸ lastNamed_of_not_named hafter)
  · obtain ⟨_, -, hselected, -⟩ := exists_lastNamed hv hsets hset
    exact Text.eq_of_lower_eq (Text.trim_sublist name) (hselected.symm.trans hname)

/-- Version sets of which one has a blank in front of its name and two have names that are the same
in lower case. -/
def unreachableSets : List (Text × Json) := [
  (" stable".toText, coreVersion "1"), ("Next".toText, coreVersion "2"),
  ("next".toText, coreVersion "3")]

/-- A fragment file with these version sets. -/
def unreachableFile : Json := plainFile unreachableSets

theorem validate_unreachableFile : validate unreachableFile = .ok () :=
  eq_ok_of_toOption (by decide +kernel)

theorem select_declared_next : ∃ table, versionSets unreachableFile = .ok table ∧
    ∃ set, VersionSet.select table (some "next".toText) = .ok set ∧ set.name = "next".toText ∧
      DescribesVersions (coreVersion "3") set := by
  have hsets : unreachableFile.get? "version_sets".toText =
      some (.obj (unreachableSets.take 2 ++ ("next".toText, coreVersion "3") :: [])) := rfl
  obtain ⟨table, htable, -, hselected, -⟩ := select_declared validate_unreachableFile hsets
  exact ⟨table, htable, hselected (by decide) (by simp)⟩

/-- Asking for a set by the name it has can find no set, and it can find another set. -/
theorem declared_not_selected : validate unreachableFile = .ok () ∧
    unreachableFile.get? "version_sets".toText = some (.obj unreachableSets) ∧
    ∃ table, versionSets unreachableFile = .ok table ∧
      (∃ e, VersionSet.select table (some " stable".toText) = .error e) ∧
      ∃ set, VersionSet.select table (some "Next".toText) = .ok set ∧
        ¬ HasValues (coreVersion "2") set := by
  refine ⟨validate_unreachableFile, rfl, _, versionSets_of_validate validate_unreachableFile,
    exists_of_toOption_eq_none (by decide +kernel), ?_⟩
  refine ⟨⟨"next".toText, [("core".toText, "3".toText)]⟩,
    eq_ok_of_toOption (by decide +kernel), fun h => ?_⟩
  exact absurd (h "core".toText) (by simp [coreVersion, Json.get?, VersionSet.get?, Table.get?])

end Payload

end Graft
