import Graft.Proofs.Backup.Listing
import Mathlib.Logic.Function.Basic
import Mathlib.Data.Set.Function

/-!
# Snapshots that are kept

Several sources can share one backup directory. At each time it holds, next to what was there at the
start, some of the snapshots that were taken (`Holds`). Whatever happens elsewhere changes nothing
about them, and

> `Holds.list_eq`: what is kept of a source is what is listed of it.
> `Holds.snapshot`: a snapshot adds itself to those of its source and leaves the newest of them.

Which ones are the newest is up to the moments and the numbers alone. In both the names are what
counts: those of one source are never read as those of another.
-/

namespace Graft

namespace Backups

open Disk

variable {b : Backups} {d d' start : Disk} {l : Location} {sources : Set Path} {source : Path}
  {name : Text} {now : Moment} {backup : Backup} {f : File}

/-! ## What is in the directory -/

/-- A snapshot that was taken, and the file that it is of as it was then. -/
structure Taken where
  backup : Backup
  file : File

/-- What a copy of a file holds. -/
def Taken.copy (t : Taken) : File :=
  ⟨t.file.content, .ofNat t.file.mode⟩

/-- No directory is lost, and nothing has changed under names that are read as those of backups. -/
structure Undisturbed (b : Backups) (sources : Set Path) (d d' : Disk) : Prop where
  keeps : KeepsDirectories d d'
  filed : d'.FiledOnce
  entries : ∀ s ∈ sources, ∀ name, (Backup.read? (Backup.key d.here s) name).isSome →
    d'.node? (b.pathOf name) = d.node? (b.pathOf name)

/-- A directory is open for the backups of some sources, and there are none as yet. -/
structure IsVacant (b : Backups) (sources : Set Path) (d : Disk) (l : Location) : Prop where
  isOpen : b.IsOpen d l
  filed : d.FiledOnce
  keys : Set.InjOn (Backup.key d.here) sources
  lists : ∀ s ∈ sources, b.list d s = .ok []

/-- What a snapshot is recorded as. -/
def record (b : Backups) (here : Location) (source : Path) (created : Moment) (n : Nat) : Backup :=
  ⟨b.pathOf (Backup.fileName (Backup.key here source) created n), source, created, n⟩

/-- A snapshot is in the directory, under its own name, where there was nothing at the start. -/
structure IsStored (b : Backups) (start d : Disk) (source : Path) (t : Taken) : Prop where
  recorded : ∃ created n, created.IsStamped ∧ t.backup = b.record start.here source created n
  node : d.node? t.backup.path = some (.file t.copy)
  readable : t.file.mode.grants .read = true
  fresh : start.node? t.backup.path = none

/-- What is under names that are read as those of backups: the snapshots that are kept of each
source, the newest first, and what was there at the start. -/
structure Holds (b : Backups) (sources : Set Path) (start : Disk) (kept : Path → List Taken)
    (d : Disk) : Prop where
  keeps : KeepsDirectories start d
  filed : d.FiledOnce
  stored : ∀ s ∈ sources, ∀ t ∈ kept s, b.IsStored start d s t
  sorted : ∀ s ∈ sources, (kept s).Pairwise fun t u => Backup.isOlder u.backup t.backup = true
  others : ∀ s ∈ sources, ∀ name, (Backup.read? (Backup.key start.here s) name).isSome →
    b.pathOf name ∉ (kept s).map (·.backup.path) →
    d.node? (b.pathOf name) = start.node? (b.pathOf name)

/-- A name that is read starts with the key, and leads to an entry of the directory. -/
theorem ne_up_of_read? {here : Location}
    (h : (Backup.read? (Backup.key here source) name).isSome) : name ≠ Path.up ∧ name ≠ [] := by
  obtain ⟨read, hread⟩ := Option.isSome_iff_exists.1 h
  obtain ⟨label, hlabel, -⟩ := Option.bind_eq_some_iff.1 hread
  exact ne_up_of_key ((List.prefix_append _ _).trans (Backup.prefix_of_label? hlabel))

/-- A name that a file system takes is short enough for its number to be read. -/
theorem read?_of_node? {key : Text} {created : Moment} {n : Nat} {node : Node}
    (hstamp : created.IsStamped)
    (h : d.node? (b.pathOf (Backup.fileName key created n)) = some node) :
    Backup.read? key (Backup.fileName key created n) = some (created, (n : Int)) := by
  refine Backup.read?_fileName hstamp ?_
  unfold node? at h
  split at h
  · next k hk =>
    have hadmits := admits_of_locate hk
    simp only [admits, Bool.and_eq_true, Bool.not_eq_true'] at hadmits
    have hshort := length_le_of_exceeds hadmits.2
    simp only [Backup.fileName, List.length_append, List.length_cons, maxName] at hshort
    simp only [Text.maxDigits]
    omega
  · cases h

namespace IsStored

variable {t : Taken} (h : b.IsStored start d source t)

include h

/-- What is stored is in the directory, under its name. -/
theorem path_eq : t.backup.path = b.pathOf t.backup.path.name := by
  obtain ⟨created, n, -, hrecord⟩ := h.recorded
  rw [hrecord, record, name_pathOf]

theorem source_eq : t.backup.source = source := by
  obtain ⟨created, n, -, hrecord⟩ := h.recorded
  rw [hrecord, record]

/-- The name is read as the moment and the number. -/
theorem read?_name : Backup.read? (Backup.key start.here source) t.backup.path.name =
    some (t.backup.created, t.backup.number) := by
  obtain ⟨created, n, hstamp, hrecord⟩ := h.recorded
  have hnode := h.node
  rw [hrecord] at hnode ⊢
  rw [record, name_pathOf]
  exact read?_of_node? hstamp hnode

theorem name_ne_up : t.backup.path.name ≠ Path.up ∧ t.backup.path.name ≠ [] :=
  ne_up_of_read? (by rw [h.read?_name]; rfl)

theorem location_eq (hopen : b.IsOpen start l) :
    t.backup.path.location start.here = l ++ [t.backup.path.name] := by
  rw [h.path_eq, name_pathOf, location_pathOf_of_isOpen hopen h.name_ne_up.1]

theorem fileAt : d.fileAt t.backup.path = .ok t.copy := by
  have hnode := h.node
  unfold node? at hnode
  split at hnode
  · next k hk =>
    refine fileAt_eq_ok_iff.2 ⟨k, hk, hnode, ?_⟩
    rw [Taken.copy, Mode.grants_ofNat]
    exact h.readable
  · cases hnode

theorem congr (hnode : d'.node? t.backup.path = d.node? t.backup.path) :
    b.IsStored start d' source t :=
  ⟨h.recorded, by rw [hnode, h.node], h.readable, h.fresh⟩

/-- It stays where it is if its name is not among those that change. -/
theorem of_sameBut {names : List Text} (hopen : b.IsOpen d l) (hkeeps : KeepsDirectories d d')
    (hsame : SameBut (names.map fun name => l ++ [name]) d d')
    (hname : t.backup.path.name ∉ names) : b.IsStored start d' source t := by
  refine h.congr ?_
  rw [h.path_eq]
  exact node?_of_sameBut hopen hkeeps hsame h.name_ne_up.1 hname

end IsStored

/-- In an empty directory there are no backups. -/
theorem isVacant_of_entries (hopen : b.IsOpen d l) (hfiled : d.FiledOnce)
    (hempty : d.entries l = []) (hkeys : Set.InjOn (Backup.key d.here) sources)
    (hkeyed : ∀ s ∈ sources, ∃ key, Backup.key? d s = .ok key) : b.IsVacant sources d l := by
  refine ⟨hopen, hfiled, hkeys, fun s hs => ?_⟩
  obtain ⟨key, hk⟩ := hkeyed s hs
  rw [hopen.list_eq hk, hempty, listAmong, List.filterMap_nil, List.mergeSort_nil]

namespace IsVacant

variable (h : b.IsVacant sources start l)

include h

theorem exists_key? (hs : source ∈ sources) : ∃ key, Backup.key? start source = .ok key := by
  obtain ⟨m, hdir, -⟩ := h.isOpen.directory
  have hlook : start.look b.directory = .ok (some (.directory m)) := by
    rw [look, h.isOpen.located]
    exact congrArg Except.ok hdir
  have hlist := h.lists source hs
  simp only [list, hlook, bind, Except.bind] at hlist
  cases hkey : Backup.key? start source with
  | error e =>
    rw [hkey] at hlist
    cases hlist
  | ok key => exact ⟨key, rfl⟩

/-- There is no file under a name that is read as that of a backup. -/
theorem node?_ne_file (hs : source ∈ sources)
    (hread : (Backup.read? (Backup.key start.here source) name).isSome) (f : File) :
    start.node? (b.pathOf name) ≠ some (.file f) := by
  intro hfile
  obtain ⟨hup, hne⟩ := ne_up_of_read? hread
  obtain ⟨⟨created, number⟩, hread⟩ := Option.isSome_iff_exists.1 hread
  obtain ⟨key, hk⟩ := h.exists_key? hs
  have hlist := h.lists source hs
  rw [h.isOpen.list_eq hk, Except.ok.injEq] at hlist
  have hentry : name ∈ start.entries l := by
    rw [node?_pathOf h.isOpen hup] at hfile
    split at hfile
    · rw [mem_entries_iff, hfile]
      exact ⟨hne, rfl⟩
    · cases hfile
  have hmem := mem_listAmong_iff.2
    ⟨name, hentry, by rw [isFile, hfile], created, number, hread, rfl⟩
  rw [hlist] at hmem
  cases hmem

/-- At the start no snapshots are kept. -/
theorem holds : b.Holds sources start (fun _ => []) start where
  keeps := .refl start
  filed := h.filed
  stored := fun s hs t ht => by cases ht
  sorted := fun s hs => .nil
  others := fun s hs name hread hname => rfl

end IsVacant

namespace Holds

variable {kept : Path → List Taken}

theorem isOpen (hv : b.IsVacant sources start l) (h : b.Holds sources start kept d) :
    b.IsOpen d l :=
  hv.isOpen.of_keeps h.keeps

/-- Under a name that is no kept snapshot's, there is what was there at the start. -/
theorem node?_eq (h : b.Holds sources start kept d) (hs : source ∈ sources)
    (hread : (Backup.read? (Backup.key start.here source) name).isSome)
    (hname : name ∉ (kept source).map (·.backup.path.name)) :
    d.node? (b.pathOf name) = start.node? (b.pathOf name) := by
  refine h.others source hs name hread fun hmem => hname ?_
  obtain ⟨t, ht, hpath⟩ := List.mem_map.1 hmem
  exact List.mem_map.2 ⟨t, ht, by rw [hpath, name_pathOf]⟩

/-- A name tells which of the snapshots that are kept it is of. -/
theorem exists_of_mem_names (h : b.Holds sources start kept d) (hs : source ∈ sources)
    {created : Moment} {number : Int}
    (hread : Backup.read? (Backup.key start.here source) name = some (created, number))
    (hname : name ∈ (kept source).map (·.backup.path.name)) :
    ∃ t ∈ kept source, t.backup = ⟨b.pathOf name, source, created, number⟩ := by
  obtain ⟨t, ht, rfl⟩ := List.mem_map.1 hname
  have hstored := h.stored source hs t ht
  rw [hstored.read?_name, Option.some.injEq, Prod.mk.injEq] at hread
  refine ⟨t, ht, ?_⟩
  rw [← hread.1, ← hread.2, ← hstored.path_eq, ← hstored.source_eq]

/-- What is kept of a source is what is listed of it. -/
theorem list_eq (hv : b.IsVacant sources start l) (h : b.Holds sources start kept d)
    (hs : source ∈ sources) : b.list d source = .ok ((kept source).map (·.backup)) := by
  obtain ⟨key, hk⟩ := hv.exists_key? hs
  have hopen := h.isOpen hv
  rw [hopen.list_eq (key?_of_keeps h.keeps hk), Except.ok.injEq]
  refine listAmong_eq (h.filed.nodup_entries l) (List.pairwise_map.2 (h.sorted source hs)) ?_
  intro x
  rw [mem_listAmong_iff, h.keeps.here]
  constructor
  · intro hx
    obtain ⟨t, ht, rfl⟩ := List.mem_map.1 hx
    have hstored := h.stored source hs t ht
    have hnode := hstored.node
    rw [hstored.path_eq] at hnode
    refine ⟨_, ?_, by rw [isFile, hnode], _, _, hstored.read?_name, ?_⟩
    · rw [node?_pathOf hopen hstored.name_ne_up.1] at hnode
      split at hnode
      · rw [mem_entries_iff, hnode]
        exact ⟨hstored.name_ne_up.2, rfl⟩
      · cases hnode
    · rw [← hstored.path_eq, ← hstored.source_eq]
  · rintro ⟨name, -, hfile, created, number, hread, rfl⟩
    have hsome : (Backup.read? (Backup.key start.here source) name).isSome := by rw [hread]; rfl
    by_cases hkept : name ∈ (kept source).map (·.backup.path.name)
    · obtain ⟨t, ht, hbackup⟩ := h.exists_of_mem_names hs hread hkept
      exact List.mem_map.2 ⟨t, ht, hbackup⟩
    · -- what was there at the start is no file
      rw [isFile, h.node?_eq hs hsome hkept] at hfile
      cases hnode : start.node? (b.pathOf name) with
      | none =>
        rw [hnode] at hfile
        cases hfile
      | some node =>
        cases node with
        | directory m =>
          rw [hnode] at hfile
          cases hfile
        | file f => exact absurd hnode (hv.node?_ne_file hs hsome f)

/-- What happens elsewhere changes nothing. -/
theorem undisturbed (h : b.Holds sources start kept d) (hd : b.Undisturbed sources d d') :
    b.Holds sources start kept d' where
  keeps := h.keeps.trans hd.keeps
  filed := hd.filed
  stored := by
    intro s hs t ht
    have hstored := h.stored s hs t ht
    refine hstored.congr ?_
    rw [hstored.path_eq]
    refine hd.entries s hs _ ?_
    rw [h.keeps.here, hstored.read?_name]
    rfl
  sorted := h.sorted
  others := by
    intro s hs name hread hname
    rw [hd.entries s hs name (by rw [h.keeps.here]; exact hread)]
    exact h.others s hs name hread hname

/-- Under the names of one source files may come and go, if what is then kept of it is told. Of the
other sources all is kept, as no name of the one is read under the key of another. -/
theorem update (hv : b.IsVacant sources start l) (h : b.Holds sources start kept d)
    (hs : source ∈ sources) {names : List Text} {all : List Taken}
    (hkeeps : KeepsDirectories d d') (hfiled : d'.FiledOnce)
    (hsame : SameBut (names.map fun name => l ++ [name]) d d')
    (hnames : ∀ name ∈ names, ∃ created n,
      name = Backup.fileName (Backup.key start.here source) created n)
    (hstored : ∀ t ∈ all, b.IsStored start d' source t)
    (hsorted : all.Pairwise fun t u => Backup.isOlder u.backup t.backup = true)
    (hothers : ∀ name, (Backup.read? (Backup.key start.here source) name).isSome →
      name ∉ all.map (·.backup.path.name) →
      d'.node? (b.pathOf name) = start.node? (b.pathOf name)) :
    b.Holds sources start (Function.update kept source all) d' := by
  have hopen := h.isOpen hv
  have hforeign : ∀ s ∈ sources, s ≠ source → ∀ {name},
      (Backup.read? (Backup.key start.here s) name).isSome → name ∉ names := by
    intro s hs' hne name hread hmem
    obtain ⟨created, n, rfl⟩ := hnames name hmem
    rw [Backup.read?_fileName_of_ne fun he => hne (hv.keys hs' hs he)] at hread
    cases hread
  refine ⟨h.keeps.trans hkeeps, hfiled, ?_, ?_, ?_⟩
  · intro s hs' t ht
    by_cases hsource : s = source
    · subst hsource
      rw [Function.update_self] at ht
      exact hstored t ht
    · rw [Function.update_of_ne hsource] at ht
      have hthere := h.stored s hs' t ht
      exact hthere.of_sameBut hopen hkeeps hsame
        (hforeign s hs' hsource (by rw [hthere.read?_name]; rfl))
  · intro s hs'
    by_cases hsource : s = source
    · subst hsource
      rw [Function.update_self]
      exact hsorted
    · rw [Function.update_of_ne hsource]
      exact h.sorted s hs'
  · intro s hs' name hread hname
    by_cases hsource : s = source
    · subst hsource
      rw [Function.update_self] at hname
      refine hothers name hread fun hmem => hname ?_
      obtain ⟨t, ht, rfl⟩ := List.mem_map.1 hmem
      exact List.mem_map.2 ⟨t, ht, (hstored t ht).path_eq⟩
    · rw [Function.update_of_ne hsource] at hname
      rw [node?_of_sameBut hopen hkeeps hsame (ne_up_of_read? hread).1
        (hforeign s hs' hsource hread)]
      exact h.others s hs' name hread hname

end Holds

/-! ## One snapshot -/

/-- A file is put under a name of the directory where there is nothing. -/
structure Adds (b : Backups) (d d' : Disk) (l : Location) (name : Text) (f : File) : Prop where
  free : d.node? (b.pathOf name) = none
  node : d'.node? (b.pathOf name) = some (.file ⟨f.content, .ofNat f.mode⟩)
  readable : f.mode.grants .read = true
  same : SameBut [l ++ [name]] d d'
  keeps : KeepsDirectories d d'
  filed : d.FiledOnce → d'.FiledOnce
  writable : ∃ m, d.at? l = some (.directory m) ∧ m.grants .write = true

theorem of_store (h : b.store d now source = (d', .ok backup)) :
    backup.source = source ∧ backup.created = now := by
  unfold store at h
  split at h
  · cases h
  · dsimp only at h
    split at h
    · cases h
    · cases h
      exact ⟨rfl, rfl⟩

/-- A snapshot is recorded under its source and the moment at which it is taken. -/
theorem of_snapshot (h : b.snapshot d now source = (d', .ok (.ok backup))) :
    backup.source = source ∧ backup.created = now := by
  obtain ⟨d₁, hstore, -⟩ := steps_of_snapshot h
  exact of_store hstore

/-- A snapshot that is stored is added under the first name that is free. -/
theorem adds_of_store (hopen : b.IsOpen d l) (hf : d.fileAt source = .ok f)
    (h : b.store d now source = (d', .ok backup)) :
    let n := b.freeNumber d (Backup.key d.here source) now
    backup = b.record d.here source now n ∧
      b.Adds d d' l (Backup.fileName (Backup.key d.here source) now n) f := by
  intro n
  obtain ⟨m, hdir, -⟩ := hopen.directory
  unfold store at h
  rw [makePath_of_directory hopen.located hdir] at h
  dsimp only at h
  split at h
  · cases h
  · next d₂ hcopy =>
    cases h
    refine ⟨rfl, ?_⟩
    generalize hname : Backup.fileName (Backup.key d.here source) now n = name
    have hkey : Backup.key d.here source <+: name := by
      rw [← hname]
      exact key_prefix_fileName _ _ _
    have hup := (ne_up_of_key hkey).1
    have hfree : d.node? (b.pathOf name) = none := by
      rw [← hname]
      exact (freeNumber_spec hopen source now).1
    change copy d source (b.pathOf (Backup.fileName (Backup.key d.here source) now n)) = _ at hcopy
    rw [hname] at hcopy
    obtain ⟨g, k, hg, hk, hdirs, hsame, hnode⟩ := copy_eq_ok hcopy
    obtain ⟨g', d₁, hg', hwrite, hmode⟩ := steps_of_copy hcopy
    rw [hf, Except.ok.injEq] at hg hg'
    subst hg hg'
    have hlocated := locate_pathOf hopen hup (admits_of_locate hk)
    rw [hlocated, Except.ok.injEq] at hk
    subst hk
    have hkeeps := hsame.keepsDirectories_of_not hdirs
    have hat : d.at? (l ++ [name]) = none := by
      rw [node?, hlocated] at hfree
      exact hfree
    refine ⟨hfree, ?_, ?_, hsame, hkeeps, fun hd => (hd.writeFile hwrite).setMode hmode, ?_⟩
    · rw [node?, locate_of_keeps hkeeps hlocated]
      exact hnode
    · obtain ⟨-, -, -, hread⟩ := fileAt_eq_ok_iff.1 hf
      exact hread
    · obtain ⟨m, hheld⟩ := holder_of_writeFile hlocated hat hwrite
      obtain ⟨hdir, hright, -⟩ := holder_eq_ok_iff.1 hheld
      rw [List.dropLast_concat] at hdir
      exact ⟨m, hdir, hright⟩

/-- A snapshot is recorded with the first number that is free. -/
theorem record_of_snapshot (hopen : b.IsOpen d l) (hf : d.fileAt source = .ok f)
    (h : b.snapshot d now source = (d', .ok (.ok backup))) :
    backup = b.record d.here source now (b.freeNumber d (Backup.key d.here source) now) := by
  obtain ⟨d₁, hstore, -⟩ := steps_of_snapshot h
  exact (adds_of_store hopen hf hstore).1

/-- Snapshots that are stored under different names can be removed. -/
theorem removeAll_of_isStored (hopen : b.IsOpen d l)
    (hwrite : ∃ m, d.at? l = some (.directory m) ∧ m.grants .write = true) {taken : List Taken}
    (hstored : ∀ t ∈ taken, b.IsStored start d source t)
    (hnodup : (taken.map (·.backup.path.name)).Nodup) :
    ∃ d', removeAll false d (taken.map (·.backup)) = (d', taken.map (·.backup)) ∧
      KeepsDirectories d d' ∧
      SameBut ((taken.map (·.backup.path.name)).map fun name => l ++ [name]) d d' ∧
      (d.FiledOnce → d'.FiledOnce) ∧
      ∀ name ∈ taken.map (·.backup.path.name), d'.node? (b.pathOf name) = none := by
  have hpaths : (taken.map (·.backup)).map (·.path) =
      (taken.map (·.backup.path.name)).map b.pathOf := by
    rw [List.map_map, List.map_map]
    exact List.map_congr_left fun t ht => (hstored t ht).path_eq
  refine removeAll_of_names _ hopen hwrite hpaths hnodup fun name hname => ?_
  obtain ⟨t, ht, rfl⟩ := List.mem_map.1 hname
  obtain ⟨hup, hne⟩ := (hstored t ht).name_ne_up
  rw [← (hstored t ht).path_eq]
  exact ⟨hne, hup, _, (hstored t ht).node⟩

namespace Holds

variable {kept : Path → List Taken} {t : Taken} {n : Nat}

/-- What is kept is under other names than one where there is nothing. -/
theorem not_mem_of_free (h : b.Holds sources start kept d) (hs : source ∈ sources)
    (hfree : d.node? (b.pathOf name) = none) :
    name ∉ (kept source).map (·.backup.path.name) := by
  intro hmem
  obtain ⟨t, ht, rfl⟩ := List.mem_map.1 hmem
  have hstored := h.stored source hs t ht
  rw [← hstored.path_eq, hstored.node] at hfree
  cases hfree

/-- A snapshot that is added is kept with the others of its source. -/
theorem add (hv : b.IsVacant sources start l) (h : b.Holds sources start kept d)
    (hs : source ∈ sources) (hstamp : now.IsStamped)
    (hbackup : t.backup = b.record start.here source now n)
    (hadds : b.Adds d d' l (Backup.fileName (Backup.key start.here source) now n) t.file)
    {all : List Taken} (hall : ∀ u, u ∈ all ↔ u = t ∨ u ∈ kept source)
    (hsorted : all.Pairwise fun t u => Backup.isOlder u.backup t.backup = true) :
    b.Holds sources start (Function.update kept source all) d' := by
  have hopen := h.isOpen hv
  have hread := read?_of_node? hstamp hadds.node
  have hpath : t.backup.path = b.pathOf (Backup.fileName (Backup.key start.here source) now n) := by
    rw [hbackup, record]
  have hnew := h.not_mem_of_free hs hadds.free
  have hsame : SameBut ([Backup.fileName (Backup.key start.here source) now n].map
      fun name => l ++ [name]) d d' := hadds.same
  refine h.update hv hs hadds.keeps (hadds.filed h.filed) hsame ?_ ?_ hsorted ?_
  · intro name hname
    exact ⟨now, n, List.mem_singleton.1 hname⟩
  · intro u hu
    rcases (hall u).1 hu with rfl | hu
    · refine ⟨⟨now, n, hstamp, hbackup⟩, by rw [hpath]; exact hadds.node, hadds.readable, ?_⟩
      -- nothing was there when the snapshot was taken, so nothing was there at the start
      rw [hpath, ← h.node?_eq hs (by rw [hread]; rfl) hnew]
      exact hadds.free
    · refine (h.stored source hs u hu).of_sameBut hopen hadds.keeps hsame fun hmem => hnew ?_
      exact List.mem_map.2 ⟨u, hu, List.mem_singleton.1 hmem⟩
  · intro name hread hname
    have hother : name ∉ [Backup.fileName (Backup.key start.here source) now n] := by
      intro hmem
      refine hname (List.mem_map.2 ⟨t, (hall t).2 (.inl rfl), ?_⟩)
      rw [hpath, name_pathOf, List.mem_singleton.1 hmem]
    rw [node?_of_sameBut hopen hadds.keeps hsame (ne_up_of_read? hread).1 hother]
    exact h.node?_eq hs hread fun hmem =>
      hname (List.map_subset _ (fun u hu => (hall u).2 (.inr hu)) hmem)

/-- Snapshots that are kept of one source have different names. -/
theorem nodup_names (h : b.Holds sources start kept d) (hs : source ∈ sources) :
    ((kept source).map (·.backup.path.name)).Nodup := by
  rw [List.Nodup, List.pairwise_map]
  refine (h.sorted source hs).imp_of_mem ?_
  intro t u ht hu holder hname
  have hread := (h.stored source hs t ht).read?_name
  rw [hname, (h.stored source hs u hu).read?_name, Option.some.injEq, Prod.mk.injEq] at hread
  rw [Backup.isOlder_iff, hread.1, hread.2] at holder
  rcases holder with holder | ⟨-, holder⟩
  · exact lt_irrefl _ holder
  · omega

/-- The snapshots that are kept behind some others of their source can be removed. -/
theorem remove (hv : b.IsVacant sources start l) (h : b.Holds sources start kept d)
    (hs : source ∈ sources) (hwrite : ∃ m, d.at? l = some (.directory m) ∧ m.grants .write = true)
    {newest oldest : List Taken} (hkept : kept source = newest ++ oldest) :
    ∃ d', removeAll false d (oldest.map (·.backup)) = (d', oldest.map (·.backup)) ∧
      b.Holds sources start (Function.update kept source newest) d' ∧
      SameBut (oldest.map fun t => t.backup.path.location start.here) d d' := by
  have hopen := h.isOpen hv
  have hstored := h.stored source hs
  have hsorted := h.sorted source hs
  have hnodup := h.nodup_names hs
  rw [hkept] at hstored hsorted hnodup
  rw [List.map_append, List.nodup_append] at hnodup
  obtain ⟨-, hnodup, hapart⟩ := hnodup
  have holdest : ∀ t ∈ oldest, b.IsStored start d source t :=
    fun t ht => hstored t (List.mem_append_right _ ht)
  obtain ⟨d', hd', hkeeps, hsame, hfiled, hgone⟩ :=
    removeAll_of_isStored hopen hwrite holdest hnodup
  refine ⟨d', hd', h.update hv hs hkeeps (hfiled h.filed) hsame ?_ ?_
    (List.pairwise_append.1 hsorted).1 ?_, ?_⟩
  · intro name hname
    obtain ⟨t, ht, rfl⟩ := List.mem_map.1 hname
    obtain ⟨created, n, -, hrecord⟩ := (holdest t ht).recorded
    exact ⟨created, n, by rw [hrecord, record, name_pathOf]⟩
  · intro t ht
    refine (hstored t (List.mem_append_left _ ht)).of_sameBut hopen hkeeps hsame fun hmem => ?_
    exact hapart _ (List.mem_map_of_mem ht) _ hmem rfl
  · intro name hread hname
    by_cases hmem : name ∈ oldest.map (·.backup.path.name)
    · -- what was removed was not there at the start either
      rw [hgone name hmem]
      obtain ⟨t, ht, rfl⟩ := List.mem_map.1 hmem
      rw [← (holdest t ht).path_eq, (holdest t ht).fresh]
    · rw [node?_of_sameBut hopen hkeeps hsame (ne_up_of_read? hread).1 hmem]
      refine h.node?_eq hs hread ?_
      rw [hkept, List.map_append, List.mem_append, not_or]
      exact ⟨hname, hmem⟩
  · rw [List.map_map] at hsame
    rwa [List.map_congr_left fun t ht => (holdest t ht).location_eq hv.isOpen]

/-- A snapshot adds itself to those that are kept of its source, and leaves the newest of them. -/
theorem snapshot (hv : b.IsVacant sources start l) (h : b.Holds sources start kept d)
    (hs : source ∈ sources) (hstamp : now.IsStamped) (hf : d.fileAt source = .ok f)
    (hsnapshot : b.snapshot d now source = (d', .ok (.ok backup))) (all : List Taken)
    (hall : ∀ u, u ∈ all ↔ u = ⟨backup, f⟩ ∨ u ∈ kept source)
    (hsorted : all.Pairwise fun t u => Backup.isOlder u.backup t.backup = true) :
    b.Holds sources start (Function.update kept source (all.take b.retention)) d' ∧
      d.node? backup.path = none ∧
      SameBut (backup.path.location start.here ::
        (all.drop b.retention).map fun t => t.backup.path.location start.here) d d' := by
  have hopen := h.isOpen hv
  obtain ⟨d₂, hstore, removed, hprune⟩ := steps_of_snapshot hsnapshot
  obtain ⟨hbackup, hadds⟩ := adds_of_store hopen hf hstore
  rw [h.keeps.here] at hbackup hadds
  have hadded := h.add (t := ⟨backup, f⟩) hv hs hstamp hbackup hadds hall hsorted
  have hkept : Function.update kept source all source =
      all.take b.retention ++ all.drop b.retention := by
    rw [Function.update_self, List.take_append_drop]
  obtain ⟨m, hdir, hright⟩ := hadds.writable
  obtain ⟨d₃, hremove, hholds, hsame⟩ := hadded.remove hv hs
    ⟨m, hadds.keeps.directory hdir, hright⟩ hkept
  -- what is listed after the copy are all of them, the newest first
  have hlist := hadded.list_eq hv hs
  rw [Function.update_self] at hlist
  rw [prune, hlist] at hprune
  dsimp only at hprune
  rw [← List.map_drop, hremove, Prod.mk.injEq] at hprune
  obtain ⟨rfl, -⟩ := hprune
  rw [Function.update_idem] at hholds
  refine ⟨hholds, by rw [hbackup]; exact hadds.free, ?_⟩
  have hlocation : backup.path.location start.here =
      l ++ [Backup.fileName (Backup.key start.here source) now
        (b.freeNumber d (Backup.key start.here source) now)] := by
    rw [hbackup]
    exact location_pathOf_of_isOpen hv.isOpen (ne_up_of_key (key_prefix_fileName _ _ _)).1
  rw [hlocation]
  exact (hadds.same.mono (by simp)).trans (hsame.mono (by simp))

end Holds

/-! ## Snapshots that can be taken -/

/-- The number that is taken is the one before which all are in use. -/
theorem freeNumber_eq {n : Nat} (hopen : b.IsOpen d l)
    (hused : ∀ k < n, d.isPresent (b.pathOf
      (Backup.fileName (Backup.key d.here source) now k)) = true)
    (hfree : d.isPresent (b.pathOf (Backup.fileName (Backup.key d.here source) now n)) = false) :
    b.freeNumber d (Backup.key d.here source) now = n := by
  obtain ⟨hnone, hbefore⟩ := freeNumber_spec hopen source now
  rcases Nat.lt_trichotomy (b.freeNumber d (Backup.key d.here source) now) n with hlt | heq | hlt
  · have hpresent := hused _ hlt
    rw [isPresent, hnone] at hpresent
    cases hpresent
  · exact heq
  · rw [hbefore n hlt] at hfree
    cases hfree

namespace Holds

variable {kept : Path → List Taken} {n : Nat}

/-- In a directory that was empty at the start, the numbers in use are those of the snapshots that
are kept. -/
theorem isPresent_iff (hv : b.IsVacant sources start l) (hempty : start.entries l = [])
    (h : b.Holds sources start kept d) (hs : source ∈ sources) (hstamp : now.IsStamped) :
    d.isPresent (b.pathOf (Backup.fileName (Backup.key start.here source) now n)) = true ↔
      ∃ t ∈ kept source, t.backup.created = now ∧ t.backup.number = n := by
  constructor
  · intro hpresent
    obtain ⟨node, hnode⟩ := Option.isSome_iff_exists.1 hpresent
    have hread := read?_of_node? hstamp hnode
    by_cases hkept : Backup.fileName (Backup.key start.here source) now n ∈
        (kept source).map (·.backup.path.name)
    · obtain ⟨t, ht, hbackup⟩ := h.exists_of_mem_names hs hread hkept
      exact ⟨t, ht, by rw [hbackup], by rw [hbackup]⟩
    · obtain ⟨hup, hne⟩ := ne_up_of_key (key_prefix_fileName (Backup.key start.here source) now n)
      rw [h.node?_eq hs (by rw [hread]; rfl) hkept,
        node?_eq_none_of_entries hv.isOpen hempty hup hne] at hnode
      cases hnode
  · rintro ⟨t, ht, hcreated, hnumber⟩
    have hstored := h.stored source hs t ht
    obtain ⟨created, k, -, hrecord⟩ := hstored.recorded
    have hnode := hstored.node
    rw [hrecord] at hnode hcreated hnumber
    obtain rfl : created = now := hcreated
    obtain rfl : k = n := Int.ofNat.inj hnumber
    rw [isPresent, show d.node? (b.pathOf _) = _ from hnode]
    rfl

/-- A snapshot can be taken of a file that can be read if a file of the name that is chosen can be
made in the directory. -/
theorem exists_snapshot (hv : b.IsVacant sources start l) (h : b.Holds sources start kept d)
    (hwrite : ∃ m, start.at? l = some (.directory m) ∧ m.grants .write = true)
    (hs : source ∈ sources) (hf : d.fileAt source = .ok f)
    (hnumber : b.freeNumber d (Backup.key start.here source) now = n)
    (hadmits : b.admits (Backup.fileName (Backup.key start.here source) now n) = true) :
    ∃ d', b.snapshot d now source = (d', .ok (.ok (b.record start.here source now n))) := by
  obtain ⟨key, hk⟩ := hv.exists_key? hs
  obtain ⟨m, hdir, hright⟩ := hwrite
  have hopen := h.isOpen hv
  obtain ⟨hup, hne⟩ := ne_up_of_key (key_prefix_fileName (Backup.key start.here source) now n)
  have hfree := (freeNumber_spec hopen source now).1
  rw [← h.keeps.here] at hnumber hadmits hup hne ⊢
  rw [hnumber, node?_pathOf hopen hup, if_pos hadmits] at hfree
  exact snapshot_of_hasRoom hnumber
    ⟨hopen, ⟨m, h.keeps.directory hdir, hright⟩, locate_pathOf hopen hup hadmits, hfree, hne⟩
    (key?_of_keeps h.keeps hk) hf

end Holds

end Backups

end Graft
