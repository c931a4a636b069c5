import Graft.Backup
import Graft.Proofs.Disk.Sparing
import Graft.Proofs.Moment
import Graft.Proofs.Text.Digits

/-!
# Backups spare their source

A snapshot makes directories where there is nothing, writes one file, and removes others. None of
these is the file that it is of: whatever it writes or removes has a name that starts with the key
of the source, and so is longer than the name of the source itself (`location_pathOf_ne`). Hence

> `spares_snapshot`: the source is as it was, however the snapshot ends.
> `fileAt_of_store`: a backup that was taken holds the bytes of the source.

Whether a snapshot can be taken at all is settled by the backup directory and by the first name for
the moment (`Ready`, `snapshot_of_ready`); in general it is settled by the first name that is free
(`HasRoom`, `snapshot_of_hasRoom`).
-/

namespace Graft

/-! ## The names of backups -/

/-- One more name leads one step further. -/
theorem Path.location_child (p : Path) (name : Text) (here : Location) :
    (p.child name).location here = step (p.location here) name := by
  show List.foldl step _ (p.parts ++ [name]) = _
  rw [List.foldl_append]
  rfl

namespace Backups

open Disk

variable {b : Backups} {d d' : Disk} {now : Moment} {source : Path} {backup : Backup} {f : File}

/-- A key is longer than the name of the source. -/
theorem exists_key_eq (here : Location) (source : Path) :
    ∃ digits, Backup.key here source =
      (source.location here).getLast?.getD [] ++ .char '-' :: digits :=
  ⟨_, rfl⟩

/-- No name that starts with a key means the directory above, or nothing. -/
theorem ne_up_of_key {here : Location} {name : Text} (h : Backup.key here source <+: name) :
    name ≠ Path.up ∧ name ≠ [] := by
  obtain ⟨rest, rfl⟩ := h
  obtain ⟨digits, hdigits⟩ := exists_key_eq here source
  rw [hdigits]
  refine ⟨fun heq => ?_, by simp⟩
  have hmem : .char '-' ∈ Path.up := by
    rw [← heq]
    simp
  exact absurd hmem (by decide)

/-- A name that starts with the key of a source does not lead to the source. -/
theorem location_pathOf_ne {here : Location} {name : Text}
    (h : Backup.key here source <+: name) :
    (b.pathOf name).location here ≠ source.location here := by
  have hup := (ne_up_of_key h).1
  obtain ⟨rest, hrest⟩ := h
  obtain ⟨digits, hdigits⟩ := exists_key_eq here source
  intro heq
  -- the source would end in this name, which is longer than the name that the key starts with
  rw [pathOf, Path.location_child, Path.step, if_neg hup] at heq
  rw [← heq, List.getLast?_concat, Option.getD_some] at hdigits
  have hlength := congrArg List.length hrest
  rw [hdigits] at hlength
  simp only [List.length_append, List.length_cons] at hlength
  omega

theorem digit_ne_null (n : Nat) : Text.digit n ≠ .ofNat 0 := by
  intro h
  have hchar : Nat.digitChar n = Char.ofNat 0 := CodePoint.char.inj h
  grind [Nat.digitChar]

theorem not_mem_hex {c : CodePoint} (hc : ∀ k, Text.digit k ≠ c) (message : List UInt8) :
    c ∉ Digest.hex message := by
  intro hmem
  obtain ⟨word, -, hword⟩ := List.mem_flatMap.1 hmem
  exact Text.not_mem_zeroPadded (by decide) hc 8 _ hword

theorem null_not_mem_key {here : Location}
    (h : .ofNat 0 ∉ (source.location here).getLast?.getD []) :
    .ofNat 0 ∉ Backup.key here source := by
  show CodePoint.ofNat 0 ∉ (source.location here).getLast?.getD [] ++
    .char '-' :: (Digest.hex _).take Backup.keyDigits
  rw [List.mem_append, List.mem_cons, not_or, not_or]
  exact ⟨h, by decide, fun hmem => not_mem_hex digit_ne_null _ (List.mem_of_mem_take hmem)⟩

/-- The name of a backup holds no null character, if the name of its source does not. -/
theorem null_not_mem_fileName {key : Text} (hkey : .ofNat 0 ∉ key)
    (hstamp : .ofNat 0 ∉ now.stamp) (n : Nat) : .ofNat 0 ∉ Backup.fileName key now n := by
  have hnumber := Text.not_mem_zeroPadded (by decide : 1 < 10) digit_ne_null 3 n
  simp only [Backup.fileName, List.mem_append, List.mem_cons, not_or]
  exact ⟨⟨⟨hkey, by decide, hstamp⟩, by decide, hnumber⟩, by decide⟩

/-- A key has the characters of the source's name, and others that every name can have. -/
theorem isNameable_of_mem_key {here : Location} {c : CodePoint}
    (h : ∀ c ∈ (source.location here).getLast?.getD [], c.isNameable = true)
    (hc : c ∈ Backup.key here source) : c.isNameable = true := by
  rcases List.mem_append.1 hc with hc | hc
  · exact h c hc
  · rcases List.mem_cons.1 hc with rfl | hc
    · rfl
    · cases c with
      | char c => rfl
      | lone half =>
        -- a half is the digit of no value
        refine absurd (List.mem_of_mem_take hc) (not_mem_hex (fun k hk => ?_) _)
        cases hk

theorem isNameable_of_mem_fileName {key : Text} {c : CodePoint}
    (hkey : ∀ c ∈ key, c.isNameable = true) (n : Nat) (hc : c ∈ Backup.fileName key now n) :
    c.isNameable = true := by
  have hdigit : c.isDigit = true → c.isNameable = true := by
    intro hdigit
    cases c with
    | char c => rfl
    | lone half => cases hdigit
  simp only [Backup.fileName, List.mem_append, List.mem_cons] at hc
  rcases hc with ((hc | rfl | hc) | rfl | hc) | hc
  · exact hkey c hc
  · rfl
  · rcases Moment.of_mem_stamp hc with hc | rfl | rfl
    · exact hdigit hc
    · rfl
    · rfl
  · rfl
  · exact hdigit (Text.isDigit_of_mem_zeroPadded hc)
  · have hending : ∀ c ∈ Backup.ending, c.isNameable = true := by decide
    exact hending c hc

theorem length_key_le (here : Location) (source : Path) :
    (Backup.key here source).length ≤ ((source.location here).getLast?.getD []).length + 11 := by
  show ((source.location here).getLast?.getD [] ++
    .char '-' :: (Digest.hex _).take Backup.keyDigits).length ≤ _
  have := List.length_take_le Backup.keyDigits
    (Digest.hex (Encoding.utf8.bytes (source.resolve here).toText).toList)
  rw [List.length_append, List.length_cons]
  simp only [Backup.keyDigits] at this ⊢
  omega

/-- A text has at most four bytes a code point. -/
theorem exceeds_eq_false {limit : Nat} {t : Text} (h : 4 * t.length ≤ limit) :
    exceeds limit t = false := by
  have hbytes := t.nameSize_le
  rw [exceeds, decide_eq_false_iff_not]
  omega

/-- A code point has one byte at least. -/
theorem length_le_of_exceeds {limit : Nat} {t : Text} (h : exceeds limit t = false) :
    t.length ≤ limit := by
  have hbytes := t.length_le_nameSize
  rw [exceeds, decide_eq_false_iff_not] at h
  omega

/-- The backups that are listed have names that start with the key. -/
theorem path_of_mem_listAmong {names : List Text} (h : backup ∈ b.listAmong d source names) :
    ∃ name, Backup.key d.here source <+: name ∧ backup.path = b.pathOf name := by
  rw [listAmong, List.mem_mergeSort, List.mem_filterMap] at h
  obtain ⟨name, -, hname⟩ := h
  split at hname
  · obtain ⟨⟨created, number⟩, hread, rfl⟩ := Option.map_eq_some_iff.1 hname
    refine ⟨name, ?_, rfl⟩
    unfold Backup.read? at hread
    obtain ⟨label, hlabel, -⟩ := Option.bind_eq_some_iff.1 hread
    unfold Backup.label? at hlabel
    dsimp only at hlabel
    split at hlabel
    · next hstart => exact (List.prefix_append _ _).trans (List.isPrefixOf_iff_prefix.1 hstart.1)
    · cases hlabel
  · cases hname

theorem path_of_mem_list {found : List Backup} (h : b.list d source = .ok found)
    (hmem : backup ∈ found) :
    ∃ name, Backup.key d.here source <+: name ∧ backup.path = b.pathOf name := by
  obtain ⟨node?, -, h⟩ := exists_of_bind_eq_ok h
  split at h
  · obtain ⟨k, -, h⟩ := exists_of_bind_eq_ok h
    obtain ⟨o, -, h⟩ := exists_of_bind_eq_ok h
    dsimp only at h
    split at h
    · cases h
      exact path_of_mem_listAmong hmem
    · cases h
  · cases h
    cases hmem

/-! ## Snapshots -/

/-- What starts with the key of the source can be removed without harm to the source. -/
theorem spares_removeAll {stuck : Bool} {bs : List Backup}
    (h : ∀ backup ∈ bs, ∃ name, Backup.key d.here source <+: name ∧
      backup.path = b.pathOf name) :
    Spares (source.location d.here) d (removeAll stuck d bs).1 := by
  induction bs generalizing d with
  | nil => exact .refl _ d
  | cons backup rest ih =>
    have hrest := fun x hx => h x (List.mem_cons_of_mem backup hx)
    unfold removeAll
    split
    · next d' hremoved =>
      split
      · exact ih hrest
      · obtain ⟨k, f, hk, hf, rfl⟩ := removeFile_eq_ok hremoved
        obtain ⟨name, hname, hpath⟩ := h backup List.mem_cons_self
        have hne : k ≠ source.location d.here := by
          rw [locate_eq hk, hpath]
          exact location_pathOf_ne hname
        have herase : Spares (source.location d.here) d (d.erase k) :=
          (sameBut_erase List.mem_cons_self).spares hne (not_directory_of_file hf)
        exact herase.trans (ih (d := d.erase k) hrest)
    · exact ih hrest

theorem spares_prune {stuck : Bool} :
    Spares (source.location d.here) d (b.prune stuck d source).1 := by
  unfold prune
  split
  · exact .refl _ d
  · next found hfound =>
    refine spares_removeAll (b := b) ?_
    intro backup hmem
    exact path_of_mem_list hfound (List.mem_of_mem_drop hmem)

/-- A copy is made in two steps. -/
theorem steps_of_copy {target : Path} (h : copy d source target = .ok d') :
    ∃ f d₁, d.fileAt source = .ok f ∧ d.writeFile target f.content = .ok d₁ ∧
      d₁.setMode target f.mode = .ok d' := by
  obtain ⟨f, hf, h⟩ := exists_of_bind_eq_ok h
  obtain ⟨d₁, hw, h⟩ := exists_of_bind_eq_ok h
  exact ⟨f, d₁, hf, hw, h⟩

/-- A copy changes the target alone, which then has the bytes of the source. -/
theorem copy_eq_ok {target : Path} (h : copy d source target = .ok d') :
    ∃ f k, d.fileAt source = .ok f ∧ d.locate target = .ok k ∧
      (∀ m, d.at? k ≠ some (.directory m)) ∧ SameBut [k] d d' ∧
      d'.at? k = some (.file ⟨f.content, .ofNat f.mode⟩) := by
  obtain ⟨f, d₁, hf, hw, h⟩ := steps_of_copy h
  obtain ⟨k, m, hk, hdir, rfl⟩ := writeFile_eq_ok hw
  have hput : SameBut [k] d (d.put k (.file ⟨f.content, m⟩)) :=
    sameBut_put List.mem_cons_self _
  have hkeeps := hput.keepsDirectories_of_not hdir
  -- the permission bits are set on the file that was just written
  rw [setMode_file (locate_of_keeps hkeeps hk) (at?_put_self _ _ _), Except.ok.injEq] at h
  subst h
  refine ⟨f, k, hf, hk, hdir, hput.trans (sameBut_put List.mem_cons_self _), ?_⟩
  exact at?_put_self _ _ _

theorem key_prefix_fileName (key : Text) (created : Moment) (number : Nat) :
    key <+: Backup.fileName key created number := by
  simp [Backup.fileName]

theorem spares_store : Spares (source.location d.here) d (b.store d now source).1 := by
  have hpath : Spares (source.location d.here) d (d.makePath b.directory).1 := spares_makePath
  unfold store
  split
  · next d₁ e hmade =>
    rw [hmade] at hpath
    exact hpath
  · next d₁ hmade =>
    rw [hmade] at hpath
    dsimp only
    split
    · exact hpath
    · next d₂ hcopy =>
      obtain ⟨f, k, -, hk, hdir, hchange, -⟩ := copy_eq_ok hcopy
      refine hpath.trans (hchange.spares ?_ hdir)
      rw [locate_eq hk, hpath.keeps.here]
      exact location_pathOf_ne (key_prefix_fileName _ _ _)

/-- A backup that was taken holds the bytes of the source. -/
theorem fileAt_of_store (hf : d.fileAt source = .ok f)
    (h : b.store d now source = (d', .ok backup)) :
    d'.fileAt backup.path = .ok ⟨f.content, .ofNat f.mode⟩ := by
  have hpath : Spares (source.location d.here) d (d.makePath b.directory).1 := spares_makePath
  unfold store at h
  split at h
  · cases h
  · next d₁ hmade =>
    rw [hmade] at hpath
    dsimp only at h
    split at h
    · cases h
    · next d₂ hcopy =>
      cases h
      obtain ⟨g, k, hg, hk, hdir, hchange, hnode⟩ := copy_eq_ok hcopy
      rw [hpath.fileAt hf, Except.ok.injEq] at hg
      subst hg
      have hkeeps := hchange.keepsDirectories_of_not hdir
      obtain ⟨-, -, -, hright⟩ := fileAt_eq_ok_iff.1 hf
      refine fileAt_eq_ok_iff.2 ⟨k, locate_of_keeps hkeeps hk, hnode, ?_⟩
      rw [Mode.grants_ofNat]
      exact hright

/-- A snapshot is stored, and then what is too old is removed. -/
theorem steps_of_snapshot (h : b.snapshot d now source = (d', .ok (.ok backup))) :
    ∃ d₁, b.store d now source = (d₁, .ok backup) ∧
      ∃ removed, b.prune false d₁ source = (d', .ok removed) := by
  unfold snapshot at h
  split at h
  · cases h
  · split at h
    · next d₁ e hstore =>
      rw [Prod.mk.injEq] at h
      cases e <;> cases h.2
    · next d₁ backup' hstore =>
      split at h
      · next d₂ removed hprune =>
        cases h
        exact ⟨d₁, hstore, removed, hprune⟩
      · cases h

/-- The source is as it was, however a snapshot ends. -/
theorem spares_snapshot : Spares (source.location d.here) d (b.snapshot d now source).1 := by
  have hstore : Spares (source.location d.here) d (b.store d now source).1 := spares_store
  unfold snapshot
  split
  · exact .refl _ d
  · split
    · next d₁ e hstored =>
      rw [hstored] at hstore
      exact hstore
    · next d₁ backup hstored =>
      rw [hstored] at hstore
      have hprune : Spares (source.location d₁.here) d₁ (b.prune false d₁ source).1 := spares_prune
      rw [hstore.keeps.here] at hprune
      split
      · next d₂ removed hpruned =>
        rw [hpruned] at hprune
        exact hstore.trans hprune
      · next d₂ e hpruned =>
        rw [hpruned] at hprune
        exact hstore.trans hprune

/-! ## Snapshots that succeed -/

/-- All is ready for a backup: its directory is there and can be used freely, and the name for the
first backup of the moment is free and not too long. -/
structure Ready (b : Backups) (d : Disk) (now : Moment) (source : Path) (l : Location)
    (name : Text) : Prop where
  located : d.locate b.directory = .ok l
  directory : ∃ m, d.at? l = some (.directory m) ∧ ∀ r, m.grants r = true
  attached : isDetached l = false
  keyed : ∃ key, Backup.key? d source = .ok key
  named : name = Backup.fileName (Backup.key d.here source) now 0
  free : d.at? (l ++ [name]) = none
  taken : refusal? (b.pathOf name) = none
  short : exceeds maxName name = false
  near : exceeds maxPath (b.pathOf name).toText = false

/-- The directory is there, its entries can be listed, and names can be looked up in it. -/
structure IsOpen (b : Backups) (d : Disk) (l : Location) : Prop where
  located : d.locate b.directory = .ok l
  directory : ∃ m, d.at? l = some (.directory m) ∧ m.grants .read = true ∧ m.grants .search = true
  attached : isDetached l = false

theorem IsOpen.of_keeps {l : Location} (h : b.IsOpen d l) (hkeeps : KeepsDirectories d d') :
    b.IsOpen d' l := by
  obtain ⟨m, hm, hrights⟩ := h.directory
  exact ⟨locate_of_keeps hkeeps h.located, ⟨m, hkeeps.directory hm, hrights⟩, h.attached⟩

/-- A file has a key if it can be told where it is, and UTF-8 can write that. -/
theorem exists_key? {k : Location} (hk : d.resolve source = .ok k)
    (hwrites : Encoding.utf8.writes (Path.ofLocation k).toText = true) :
    ∃ key, Backup.key? d source = .ok key := by
  refine ⟨Backup.key d.here source, ?_⟩
  simp only [Backup.key?, hk, Encoding.encode_of_writes hwrites, bind, Except.bind]
  rfl

theorem key?_of_keeps {key : Text} (hkeeps : KeepsDirectories d d')
    (h : Backup.key? d source = .ok key) : Backup.key? d' source = .ok key := by
  rw [Backup.key?, resolve, hkeeps.here]
  exact h

/-- In an open directory all entries are looked at. -/
theorem IsOpen.list_eq {l : Location} {key : Text} (h : b.IsOpen d l)
    (hkey : Backup.key? d source = .ok key) :
    b.list d source = .ok (b.listAmong d source (d.entries l)) := by
  obtain ⟨m, hdir, hread, hsearch⟩ := h.directory
  have hlook : d.look b.directory = .ok (some (.directory m)) := by
    rw [look, h.located]
    exact congrArg Except.ok hdir
  have hopen : d.openDirectory b.directory = .ok l := by
    simp [openDirectory, h.located, hdir, hread, h.attached, bind, Except.bind, pure, Except.pure]
  simp [list, hlook, hkey, hopen, hsearch, bind, Except.bind, pure, Except.pure]

/-- If the first number is free, it is taken. -/
theorem freeNumber_eq_zero {key : Text}
    (h : d.isPresent (b.pathOf (Backup.fileName key now 0)) = false) :
    b.freeNumber d key now = 0 := by
  rw [freeNumber, List.range_succ_eq_map, List.find?_cons_of_pos]
  · rfl
  · rw [h]
    rfl

/-- A file that can be read can be copied to where there is nothing. -/
theorem exists_copy {target : Path} {k : Location} {m : Mode} (hf : d.fileAt source = .ok f)
    (hk : d.locate target = .ok k) (hfree : d.at? k = none) (hheld : d.holder target k = .ok m) :
    ∃ d', copy d source target = .ok d' := by
  have hwrite : d.writeFile target f.content =
      .ok (d.put k (.file ⟨f.content, Mode.newFile⟩)) := by
    simp [writeFile, hk, hfree, hheld, bind, Except.bind, pure, Except.pure]
  have hput : SameBut [k] d (d.put k (.file ⟨f.content, Mode.newFile⟩)) :=
    sameBut_put List.mem_cons_self _
  have hkeeps := hput.keepsDirectories_of_not (not_directory_of_none hfree)
  obtain ⟨d', hmode⟩ :
      ∃ d', (d.put k (.file ⟨f.content, Mode.newFile⟩)).setMode target f.mode = .ok d' :=
    ⟨_, setMode_file (locate_of_keeps hkeeps hk) (at?_put_self d k _)⟩
  refine ⟨d', ?_⟩
  simp only [copy, hf, hwrite, bind, Except.bind]
  exact hmode

/-- A file of a name can be put into the directory. -/
structure HasRoom (b : Backups) (d : Disk) (l : Location) (name : Text) : Prop where
  isOpen : b.IsOpen d l
  writable : ∃ m, d.at? l = some (.directory m) ∧ m.grants .write = true
  located : d.locate (b.pathOf name) = .ok (l ++ [name])
  free : d.at? (l ++ [name]) = none
  nonempty : name ≠ []

/-- Where there is room for the name that is chosen, the snapshot of a file that can be read
succeeds. -/
theorem snapshot_of_hasRoom {l : Location} {key : Text} {n : Nat}
    (hnumber : b.freeNumber d (Backup.key d.here source) now = n)
    (h : b.HasRoom d l (Backup.fileName (Backup.key d.here source) now n))
    (hkey : Backup.key? d source = .ok key) (hf : d.fileAt source = .ok f) :
    ∃ d', b.snapshot d now source = (d', .ok (.ok
      ⟨b.pathOf (Backup.fileName (Backup.key d.here source) now n), source, now, n⟩)) := by
  obtain ⟨m, hdir, hwrite⟩ := h.writable
  generalize hname : Backup.fileName (Backup.key d.here source) now n = name at h
  have hheld : d.holder (b.pathOf name) (l ++ [name]) = .ok m :=
    holder_eq_ok_iff.2 ⟨by rw [List.dropLast_concat, hdir], hwrite,
      isDetached_child h.isOpen.attached h.nonempty⟩
  obtain ⟨d₂, hcopy⟩ := exists_copy hf h.located h.free hheld
  have hstore : b.store d now source = (d₂, .ok ⟨b.pathOf name, source, now, n⟩) := by
    unfold store
    rw [makePath_of_directory h.isOpen.located hdir]
    dsimp only
    rw [hnumber, hname, hcopy]
  obtain ⟨g, k, -, -, hk, hchange, -⟩ := copy_eq_ok hcopy
  -- after the copy the directory is as it was, and can be listed to remove what is too old
  have hkeeps := hchange.keepsDirectories_of_not hk
  have hlist := (h.isOpen.of_keeps hkeeps).list_eq (key?_of_keeps hkeeps hkey)
  refine ⟨(removeAll false d₂ ((b.listAmong d₂ source (d₂.entries l)).drop b.retention)).1, ?_⟩
  rw [snapshot, hkey]
  dsimp only
  rw [hstore]
  dsimp only
  rw [prune, hlist]

/-- Where all is ready for a backup, the snapshot of a file that can be read succeeds. -/
theorem snapshot_of_ready {l : Location} {name : Text} (h : b.Ready d now source l name)
    (hf : d.fileAt source = .ok f) :
    ∃ d' backup, b.snapshot d now source = (d', .ok (.ok backup)) := by
  obtain ⟨m, hdir, hm⟩ := h.directory
  obtain ⟨key, hk⟩ := h.keyed
  have hkey : Backup.key d.here source <+: name := by
    rw [h.named]
    exact key_prefix_fileName _ _ _
  obtain ⟨hup, hne⟩ := ne_up_of_key hkey
  have htarget : d.locate (b.pathOf name) = .ok (l ++ [name]) :=
    locate_child h.located hdir (hm .search) hup h.taken h.near h.short
  -- the first name is free, so it is the one that is chosen
  have hnumber : b.freeNumber d (Backup.key d.here source) now = 0 := by
    refine freeNumber_eq_zero ?_
    rw [← h.named, isPresent, node?, htarget]
    dsimp only
    rw [h.free]
    rfl
  have hroom : b.HasRoom d l name :=
    ⟨⟨h.located, ⟨m, hdir, hm .read, hm .search⟩, h.attached⟩, ⟨m, hdir, hm .write⟩, htarget,
      h.free, hne⟩
  rw [h.named] at hroom
  obtain ⟨d', hd'⟩ := snapshot_of_hasRoom hnumber hroom hk hf
  exact ⟨d', _, hd'⟩

end Backups

end Graft
