import Graft.Proofs.Disk.Frame

/-!
# Sparing a file

`Spares l` is a frame for calls that may do much elsewhere: directories may be added, and anything
may happen to files, but not to the one at `l`. Making directories spares every file
(`spares_makePath`) and adds none (`at?_of_makePath`): whatever holds of a directory that is put
where there was nothing, and of one such step after the other, holds of a path that is made
(`makePath_rel`). A call that writes, removes or renames a file spares all the others
(`SameBut.spares`), and the lemmas on `removeFile`, `writeFile` and `rename` tell which file that
is.
-/

namespace Graft

namespace Disk

variable {d d' d'' : Disk} {p : Path} {l k : Location} {f : File} {node : Node}

/-! ## Sparing a file -/

/-- No directory is lost, and if there is a file at the location it is as it was. -/
structure Spares (l : Location) (d d' : Disk) : Prop where
  keeps : KeepsDirectories d d'
  file : ∀ {f : File}, d.at? l = some (.file f) → d'.at? l = some (.file f)

theorem Spares.refl (l : Location) (d : Disk) : Spares l d d :=
  ⟨.refl d, id⟩

theorem Spares.trans (h : Spares l d d') (h' : Spares l d' d'') : Spares l d d'' :=
  ⟨h.keeps.trans h'.keeps, fun hf => h'.file (h.file hf)⟩

/-- A change to something else than a directory spares every other location. -/
theorem SameBut.spares (h : SameBut [k] d d') (hne : k ≠ l)
    (hk : ∀ m, d.at? k ≠ some (.directory m)) : Spares l d d' := by
  refine ⟨h.keepsDirectories_of_not hk, ?_⟩
  intro f hf
  rw [h.elsewhere fun hmem => hne (List.mem_singleton.1 hmem).symm]
  exact hf

/-- What is put where there was nothing spares every file. -/
theorem spares_put (hk : d.at? k = none) : Spares l d (d.put k node) := by
  by_cases hne : k = l
  · subst hne
    -- whatever is somewhere is not where there was nothing
    have hother : ∀ {j : Location} {n : Node}, d.at? j = some n → j ≠ k := by
      rintro j n hj rfl
      rw [hk] at hj
      cases hj
    refine ⟨⟨rfl, fun hj => ?_⟩, fun hf => ?_⟩
    · rw [at?_put_of_ne _ _ (hother hj), hj]
    · exact absurd rfl (hother hf)
  · exact (sameBut_put List.mem_cons_self _).spares hne (not_directory_of_none hk)

/-- A file that is spared is read as before. -/
theorem Spares.fileAt (h : Spares (p.location d.here) d d') (hf : d.fileAt p = .ok f) :
    d'.fileAt p = .ok f := by
  obtain ⟨l, hl, hnode, hright⟩ := fileAt_eq_ok_iff.1 hf
  rw [← locate_eq hl] at h
  exact fileAt_eq_ok_iff.2 ⟨l, locate_of_keeps h.keeps hl, h.file hnode, hright⟩

/-! ## Calls that spare files -/

/-- A new directory is put where there was nothing. -/
theorem makeDirectory_eq_ok (h : d.makeDirectory p = .ok d') :
    ∃ k m, d.at? k = none ∧ d' = d.put k (.directory m) := by
  obtain ⟨k, -, h⟩ := exists_of_bind_eq_ok h
  split at h
  · cases h
  · next hk =>
    obtain ⟨m, -, h⟩ := exists_of_bind_eq_ok h
    cases h
    exact ⟨k, _, hk, rfl⟩

section MakePath

variable {R : Disk → Disk → Prop} (hrefl : ∀ d, R d d)
  (htrans : ∀ {d d' d''}, R d d' → R d' d'' → R d d'')
  (hput : ∀ {d k m}, d.at? k = none → R d (d.put k (.directory m)))

include hrefl hput in
theorem ensureDirectory_rel (d : Disk) (p : Path) : R d (d.ensureDirectory p).1 := by
  unfold ensureDirectory
  split
  · next d' h =>
    obtain ⟨k, m, hk, rfl⟩ := makeDirectory_eq_ok h
    exact hput hk
  · exact hrefl d

include hrefl htrans hput in
theorem makeNames_rel (start : Path.Start) (limit : Nat) (names : List Text) (d : Disk) :
    R d (makeNames start limit names d).1 := by
  induction names generalizing limit with
  | nil =>
    rw [makeNames]
    exact ensureDirectory_rel hrefl hput d _
  | cons name above ih =>
    unfold makeNames
    dsimp only
    split
    · exact hrefl d
    · next path limit hmissing =>
      have habove := ih limit
      split
      · next d' hmade =>
        rw [hmade] at habove
        exact htrans habove (ensureDirectory_rel hrefl hput d' _)
      · next d' e hmade =>
        rw [hmade] at habove
        exact habove
    · exact ensureDirectory_rel hrefl hput d _

include hrefl htrans hput in
/-- A path is made by putting directories where there was nothing, one after the other. -/
theorem makePath_rel (d : Disk) (p : Path) : R d (d.makePath p).1 :=
  makeNames_rel hrefl htrans hput _ _ _ d

end MakePath

theorem spares_makePath : Spares l d (d.makePath p).1 :=
  makePath_rel (.refl l) .trans spares_put d p

/-- The files that are there after a path was made were there before. -/
theorem at?_of_makePath (h : (d.makePath p).1.at? l = some (.file f)) :
    d.at? l = some (.file f) := by
  refine makePath_rel (R := fun d d' => d'.at? l = some (.file f) → d.at? l = some (.file f))
    (fun _ => id) (fun h h' => h ∘ h') (fun {d k m} _ h => ?_) d p h
  by_cases hne : l = k
  · subst hne
    rw [at?_put_self] at h
    cases h
  · rwa [at?_put_of_ne _ _ hne] at h

/-- A directory that is there is not made again. -/
theorem makePath_of_directory {m : Mode} (hl : d.locate p = .ok l)
    (hdir : d.at? l = some (.directory m)) : d.makePath p = (d, .ok ()) := by
  have hmade : d.makeDirectory p = .error (.alreadyExists p) := by
    simp [makeDirectory, hl, hdir, bind, Except.bind]
  have hthere : d.ensureDirectory p = (d, .ok ()) := by
    simp [ensureDirectory, hmade, isDirectory, node?, hl, hdir]
  have hparts : (⟨p.start, p.parts.reverse.reverse⟩ : Path) = p := by
    rw [List.reverse_reverse]
  unfold makePath
  cases hnames : p.parts.reverse with
  | nil =>
    rw [hnames] at hparts
    rw [makeNames, show (⟨p.start, []⟩ : Path) = p from hparts, hthere]
  | cons name above =>
    rw [hnames] at hparts
    unfold makeNames
    dsimp only
    rw [hparts, hmade]
    exact hthere

/-- Only files are removed. -/
theorem removeFile_eq_ok (h : d.removeFile p = .ok d') :
    ∃ k f, d.locate p = .ok k ∧ d.at? k = some (.file f) ∧ d' = d.erase k := by
  obtain ⟨k, hl, h⟩ := exists_of_bind_eq_ok h
  split at h
  · cases h
  · next node hk =>
    obtain ⟨m, -, h⟩ := exists_of_bind_eq_ok h
    split at h
    · cases h
    · cases h
      exact ⟨k, _, hl, hk, rfl⟩

/-- A file is written to, or made, where there is no directory. -/
theorem writeFile_eq_ok {content : ByteArray} (h : d.writeFile p content = .ok d') :
    ∃ k m, d.locate p = .ok k ∧ (∀ m, d.at? k ≠ some (.directory m)) ∧
      d' = d.put k (.file ⟨content, m⟩) := by
  obtain ⟨k, hl, h⟩ := exists_of_bind_eq_ok h
  split at h
  · cases h
  · next f hk =>
    split at h
    · cases h
      exact ⟨k, _, hl, not_directory_of_file hk, rfl⟩
    · cases h
  · next hk =>
    obtain ⟨m, -, h⟩ := exists_of_bind_eq_ok h
    cases h
    exact ⟨k, _, hl, not_directory_of_none hk, rfl⟩

/-- A file is renamed to where there is no directory. -/
theorem rename_file_eq_ok {q : Path} (h : d.rename p q = .ok d') (hp : d.locate p = .ok k)
    (hf : d.at? k = some (.file f)) (hq : d.locate q = .ok l) (hne : k ≠ l) :
    (∀ m, d.at? l ≠ some (.directory m)) ∧ d' = (d.erase k).put l (.file f) := by
  obtain ⟨k', hk, h⟩ := exists_of_bind_eq_ok h
  obtain ⟨l', hl, h⟩ := exists_of_bind_eq_ok h
  rw [hp, Except.ok.injEq] at hk
  rw [hq, Except.ok.injEq] at hl
  subst hk hl
  split at h
  · cases h
  · rw [hf] at h
    dsimp only at h
    split at h
    · cases h
    · obtain ⟨m, -, h⟩ := exists_of_bind_eq_ok h
      obtain ⟨m', -, h⟩ := exists_of_bind_eq_ok h
      cases hnode : d.at? l with
      | none =>
        rw [hnode] at h
        cases h
        exact ⟨fun _ => by simp, rfl⟩
      | some node =>
        rw [hnode] at h
        cases node with
        | directory m => cases h
        | file g =>
          cases h
          exact ⟨fun _ => by simp, rfl⟩

/-- A file that was moved can be read at its new path, if it could be read before. -/
theorem fileAt_moved (hl : d.locate p = .ok l) (hf : d.at? k = some (.file f))
    (hfree : ∀ m, d.at? l ≠ some (.directory m)) (hgrants : f.mode.grants .read = true) :
    ((d.erase k).put l (.file f)).fileAt p = .ok f := by
  have hmoved : SameBut [k, l] d ((d.erase k).put l (.file f)) :=
    sameBut_moved d _ (by simp) (by simp)
  -- no directory is among what changes, so the path leads where it led
  have hkeeps := hmoved.keepsDirectories fun j hj m hm => by
    rcases List.mem_cons.1 hj with rfl | hj
    · exact absurd hm (not_directory_of_file hf m)
    · rw [List.mem_singleton.1 hj] at hm
      exact absurd hm (hfree m)
  exact fileAt_eq_ok_iff.2 ⟨l, locate_of_keeps hkeeps hl, at?_put_self _ _ _, hgrants⟩

/-- What is somewhere else after a file was moved was there before. -/
theorem at?_of_moved {j : Location} {node' : Node} (hk : k ≠ []) (hj : j ≠ l)
    (h : ((d.erase k).put l node).at? j = some node') : j ≠ k ∧ d.at? j = some node' := by
  rw [at?_put_of_ne _ _ hj] at h
  have hjk : j ≠ k := by
    rintro rfl
    rw [at?_erase_self _ _ hk] at h
    cases h
  rw [at?_erase_of_ne _ hjk] at h
  exact ⟨hjk, h⟩

/-- A file that is made changes the entries of the directory that it is made in. -/
theorem holder_of_writeFile {content : ByteArray} (hl : d.locate p = .ok k) (hk : d.at? k = none)
    (h : d.writeFile p content = .ok d') : ∃ m, d.holder p k = .ok m := by
  obtain ⟨k', hl', h⟩ := exists_of_bind_eq_ok h
  rw [hl, Except.ok.injEq] at hl'
  subst hl'
  rw [hk] at h
  obtain ⟨m, hm, -⟩ := exists_of_bind_eq_ok h
  exact ⟨m, hm⟩

end Disk

end Graft
