import Graft.Proofs.Backup
import Graft.Proofs.Moment

/-!
# The names of backups tell sources apart

The name of a backup is its key, its stamp and its number, with points between them. A key may hold
points and stamps itself, as the name of a file may be anything, and then the name of a backup of
one source can start with the key of another. What follows that key is never read as a stamp and a
number, though:

> `read?_fileName`: the name of a backup is read back under the key of its source.
> `read?_fileName_of_ne`: under the key of another source it is not read as a backup at all.
-/

namespace Graft

namespace Text

/-- A text is cut at the first place there is; the end of it stays whole. -/
theorem exists_cutAt_append (c : CodePoint) (t r : Text) :
    ∃ before between, cutAt c (t ++ c :: r) = (before, some (between ++ r)) := by
  induction t with
  | nil => exact ⟨[], [], by simp [cutAt]⟩
  | cons d t ih =>
    rw [List.cons_append, cutAt]
    split
    · exact ⟨[], t ++ [c], by simp⟩
    · obtain ⟨before, between, h⟩ := ih
      rw [h]
      exact ⟨d :: before, between, rfl⟩

theorem cutAt_append {c : CodePoint} {t : Text} (h : c ∉ t) (r : Text) :
    cutAt c (t ++ c :: r) = (t, some r) := by
  induction t with
  | nil => simp [cutAt]
  | cons d t ih =>
    rw [List.mem_cons, not_or] at h
    obtain ⟨hd, ht⟩ := h
    rw [List.cons_append, cutAt, if_neg (Ne.symm hd), ih ht]

end Text

namespace Backup

variable {key name label : Text} {created : Moment} {n : Nat}

/-! ## Labels -/

/-- The name of a backup, with what stands between the key and the ending in one piece. -/
theorem fileName_eq (key : Text) (created : Moment) (n : Nat) :
    fileName key created n =
      key ++ .char '.' ::
        ((created.stamp ++ .char '.' :: Text.padLeft 3 (.char '0') (Text.ofNat n)) ++ ending) := by
  simp only [fileName, List.append_assoc, List.cons_append]

theorem label?_append (key label : Text) :
    label? key (key ++ .char '.' :: (label ++ ending)) = some label := by
  have hname : key ++ .char '.' :: (label ++ ending) = (key ++ [.char '.']) ++ label ++ ending := by
    simp only [List.append_assoc, List.cons_append, List.nil_append]
  have hstart :
      (key ++ [CodePoint.char '.']).isPrefixOf
        ((key ++ [CodePoint.char '.']) ++ label ++ ending) = true := by
    rw [List.isPrefixOf_iff_prefix, List.append_assoc]
    exact List.prefix_append _ _
  have hending : ending.isSuffixOf ((key ++ [CodePoint.char '.']) ++ label ++ ending) = true := by
    rw [List.isSuffixOf_iff_suffix]
    exact List.suffix_append _ _
  have hlength : ((key ++ [CodePoint.char '.']) ++ label ++ ending).length - ending.length =
      ((key ++ [CodePoint.char '.']) ++ label).length := by
    rw [List.length_append]
    exact Nat.add_sub_cancel _ _
  rw [hname, label?, if_pos ⟨hstart, hending⟩, Text.slice, hlength, List.take_left, List.drop_left]

theorem prefix_of_label? (h : label? key name = some label) : key ++ [.char '.'] <+: name := by
  unfold label? at h
  dsimp only at h
  split at h
  · next hname => exact List.isPrefixOf_iff_prefix.1 hname.1
  · cases h

/-! ## Reading a name -/

theorem point_ne_digit (k : Nat) : Text.digit k ≠ .char '.' := by
  intro h
  have hchar : Nat.digitChar k = '.' := CodePoint.char.inj h
  grind [Nat.digitChar]

theorem point_not_mem_stamp (created : Moment) : .char '.' ∉ created.stamp := by
  intro h
  rcases Moment.of_mem_stamp h with h | h | h
  · exact absurd h (by decide)
  · exact absurd h (by decide)
  · exact absurd h (by decide)

/-- The name of a backup is read back under the key of its source. -/
theorem read?_fileName (hstamp : created.IsStamped)
    (hnumber : (Text.padLeft 3 (.char '0') (Text.ofNat n)).length ≤ Text.maxDigits) :
    read? key (fileName key created n) = some (created, Int.ofNat n) := by
  have hcut := Text.cutAt_append (point_not_mem_stamp created)
    (Text.padLeft 3 (.char '0') (Text.ofNat n))
  have hne : Text.padLeft 3 (.char '0') (Text.ofNat n) ≠ [] := Text.zeroPadded_ne_nil
  simp only [read?, fileName_eq, label?_append, hcut, Moment.ofStamp?_stamp hstamp,
    Option.bind_eq_bind, Option.bind_some]
  rw [Text.toInt?_zeroPadded hnumber]
  rfl

/-- A label with a stamp behind its first point holds no number. -/
theorem read?_eq_none_of_stamp (t : Text) :
    read? key (key ++ .char '.' :: ((t ++ .char '.' :: (created.stamp ++ name)) ++ ending)) =
    none := by
  obtain ⟨before, between, hcut⟩ := Text.exists_cutAt_append (.char '.') t (created.stamp ++ name)
  have hletter : .char 'T' ∈ between ++ (created.stamp ++ name) := by
    simp [Moment.mem_stamp_T]
  have hnumber : Text.toInt? (between ++ (created.stamp ++ name)) = none := by
    cases hread : Text.toInt? (between ++ (created.stamp ++ name)) with
    | none => rfl
    | some i => exact absurd (Text.isNumeral_of_toInt? hread hletter) (by decide)
  simp only [read?, label?_append, hcut, Option.bind_eq_bind, Option.bind_some]
  cases Moment.ofStamp? before with
  | none => rfl
  | some m =>
    rw [Option.bind_some]
    split
    · next hnone => cases hnone
    · next hempty =>
      rw [Option.some.injEq] at hempty
      rw [hempty] at hletter
      cases hletter
    · next digits _ hdigits =>
      rw [Option.some.injEq] at hdigits
      rw [← hdigits, hnumber]
      rfl

/-! ## Keys of different sources -/

/-- No key is a longer one cut off at a point that is followed by a piece of the name of a backup:
behind its last hyphen a key has digits only, and in a stamp and a number there is no hyphen. -/
theorem key_ne_append {here : Location} {source : Path} {piece : Text}
    (hpiece : .char '-' ∉ piece) : Backup.key here source ≠ key ++ .char '.' :: piece := by
  intro h
  have hkey : Backup.key here source = (source.location here).getLast?.getD [] ++ .char '-' ::
      (Digest.hex (Encoding.utf8.bytes (source.resolve here).toText).toList).take keyDigits := rfl
  rw [hkey] at h
  rcases List.append_eq_append_iff.1 h with ⟨between, -, h⟩ | ⟨between, -, h⟩
  · -- the hyphen is in the shorter key, so the point is among the digits
    cases between with
    | nil => cases h
    | cons c rest =>
      obtain ⟨-, h⟩ := List.cons.inj h
      have hpoint : .char '.' ∈ (Digest.hex
          (Encoding.utf8.bytes (source.resolve here).toText).toList).take keyDigits := by
        rw [h]
        simp
      exact Backups.not_mem_hex point_ne_digit _ (List.mem_of_mem_take hpoint)
  · -- the hyphen is behind the point, where there is none
    have hhyphen : CodePoint.char '-' ∈ .char '.' :: piece := by
      rw [h]
      simp
    rcases List.mem_cons.1 hhyphen with h | h
    · cases h
    · exact hpiece h

theorem hyphen_not_mem_rest (created : Moment) (n : Nat) :
    .char '-' ∉
      (created.stamp ++ .char '.' :: Text.padLeft 3 (.char '0') (Text.ofNat n)) ++ ending := by
  intro h
  simp only [List.mem_append, List.mem_cons] at h
  rcases h with (h | h | h) | h
  · rcases Moment.of_mem_stamp h with h | h | h
    · exact absurd h (by decide)
    · exact absurd h (by decide)
    · exact absurd h (by decide)
  · cases h
  · exact absurd (Text.isDigit_of_mem_zeroPadded h) (by decide)
  · exact absurd h (by decide)

/-- Under the key of another source the name of a backup is not read as a backup at all. -/
theorem read?_fileName_of_ne {here : Location} {source : Path}
    (hne : Backup.key here source ≠ key) :
    read? (Backup.key here source) (fileName key created n) = none := by
  cases hlabel : label? (Backup.key here source) (fileName key created n) with
  | none => rw [read?, hlabel]; rfl
  | some label =>
    have hother := prefix_of_label? hlabel
    have hown : key ++ [.char '.'] <+: fileName key created n := by
      rw [fileName_eq]
      exact ⟨_, (List.append_cons key (.char '.') _).symm⟩
    -- both keys start the name, so one of them starts the other
    rcases List.prefix_or_prefix_of_prefix hother hown with h | h
    · obtain ⟨rest, hrest⟩ := h
      rcases List.eq_nil_or_concat rest with rfl | ⟨t, last, rfl⟩
      · rw [List.append_nil] at hrest
        exact absurd (List.append_cancel_right hrest) hne
      · rw [List.concat_eq_append, ← List.append_assoc] at hrest
        obtain ⟨hkey, -⟩ := List.append_inj' hrest rfl
        have hname : fileName key created n = Backup.key here source ++ .char '.' ::
            ((t ++ .char '.' :: (created.stamp ++ .char '.' ::
              Text.padLeft 3 (.char '0') (Text.ofNat n))) ++ ending) := by
          rw [fileName_eq, ← hkey]
          simp only [List.append_assoc, List.cons_append, List.nil_append]
        rw [hname]
        exact read?_eq_none_of_stamp t
    · obtain ⟨rest, hrest⟩ := h
      rcases List.eq_nil_or_concat rest with rfl | ⟨t, last, rfl⟩
      · rw [List.append_nil] at hrest
        exact absurd (List.append_cancel_right hrest).symm hne
      · rw [List.concat_eq_append, ← List.append_assoc] at hrest
        obtain ⟨hkey, hlast⟩ := List.append_inj' hrest rfl
        rw [List.append_assoc, List.singleton_append] at hkey
        refine absurd hkey.symm (key_ne_append fun hmem => ?_)
        obtain ⟨tail, htail⟩ := hother
        rw [fileName_eq, ← hkey] at htail
        simp only [List.append_assoc, List.cons_append, List.nil_append] at htail
        have hrest := (List.cons.inj (List.append_cancel_left htail)).2
        refine hyphen_not_mem_rest created n ?_
        simp only [List.append_assoc, List.cons_append]
        rw [← hrest]
        exact List.mem_append_left _ hmem

theorem fileName_injective (key : Text) (created : Moment) :
    Function.Injective (fileName key created) := by
  intro m n h
  simp only [fileName_eq] at h
  have hlabel := List.append_cancel_right (List.cons.inj (List.append_cancel_left h)).2
  have hdigits := (List.cons.inj (List.append_cancel_left hlabel)).2
  have hvalue : ∀ n, Text.valueOf (Text.padLeft 3 (.char '0') (Text.ofNat n)) = n := fun _ =>
    Text.valueOf_zeroPadded
  rw [← hvalue m, hdigits, hvalue]

end Backup

end Graft
