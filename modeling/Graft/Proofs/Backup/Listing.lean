import Graft.Proofs.Backup.Naming
import Graft.Proofs.Disk.Filing
import Mathlib.Data.List.Lex

/-!
# What a backup directory lists

Backups are listed by their age, a moment and a number, and two of one source never have the same
age. So the list is settled by what is in it:

> `listAmong_eq`: if the backups of a source among some names are known, and an order in which none
> is older than one behind it, that is the list.

What is in the directory under a name is `Disk.node?` of the path of the name. It depends on one
entry alone (`node?_pathOf`), so a snapshot, which copies the source to a name that is free
(`freeNumber_spec`) and removes what is too old (`removeAll_of_names`), leaves it as it is
for all other names.
-/

namespace Graft

namespace Backup

variable {x y z : Backup}

/-! ## The order of backups -/

theorem isOlder_iff : isOlder x y = true ↔
    x.created.parts < y.created.parts ∨ (x.created = y.created ∧ x.number < y.number) := by
  simp [isOlder]

/-- Of two backups, the first is no older than the second. -/
theorem not_isOlder_iff : isOlder x y = false ↔
    y.created.parts < x.created.parts ∨ (y.created = x.created ∧ y.number ≤ x.number) := by
  rw [← Bool.not_eq_true, isOlder_iff, not_or, not_and, not_lt, Int.not_lt, le_iff_lt_or_eq]
  constructor
  · rintro ⟨hlt | heq, hnumber⟩
    · exact .inl hlt
    · have hcreated := Moment.parts_injective heq
      exact .inr ⟨hcreated, by have := hnumber hcreated.symm; omega⟩
  · rintro (hlt | ⟨hcreated, hnumber⟩)
    · refine ⟨.inl hlt, fun heq => ?_⟩
      rw [heq] at hlt
      exact absurd hlt (lt_irrefl _)
    · exact ⟨.inr (by rw [hcreated]), fun _ => by omega⟩

theorem isOlder_irrefl (x : Backup) : isOlder x x = false :=
  not_isOlder_iff.2 (.inr ⟨rfl, Int.le_refl _⟩)

theorem isOlder_asymm (h : isOlder x y = true) : isOlder y x = false := by
  rw [isOlder_iff] at h
  rw [not_isOlder_iff]
  rcases h with h | ⟨hcreated, hnumber⟩
  · exact .inl h
  · exact .inr ⟨hcreated, by omega⟩

theorem not_isOlder_trans (hxy : isOlder x y = false) (hyz : isOlder y z = false) :
    isOlder x z = false := by
  rw [not_isOlder_iff] at *
  rcases hxy with hxy | ⟨hxy, hx⟩
  · rcases hyz with hyz | ⟨hyz, -⟩
    · exact .inl (lt_trans hyz hxy)
    · rw [← hyz] at hxy
      exact .inl hxy
  · rcases hyz with hyz | ⟨hyz, hy⟩
    · rw [hxy] at hyz
      exact .inl hyz
    · exact .inr ⟨hyz.trans hxy, by omega⟩

theorem not_isOlder_total (x y : Backup) : (!isOlder x y || !isOlder y x) = true := by
  cases h : isOlder x y with
  | false => rfl
  | true => rw [isOlder_asymm h]; rfl

end Backup

namespace Backups

open Disk

variable {b : Backups} {d d' : Disk} {l : Location} {source : Path} {name : Text}

/-! ## The names that a directory can hold -/

/-- Whether a file system takes a name, and the path to it. -/
def admits (b : Backups) (name : Text) : Bool :=
  (refusal? (b.pathOf name)).isNone && !exceeds maxPath (b.pathOf name).toText &&
    !exceeds maxName name

theorem locate_pathOf (h : b.IsOpen d l) (hup : name ≠ Path.up) (hadmits : b.admits name = true) :
    d.locate (b.pathOf name) = .ok (l ++ [name]) := by
  obtain ⟨m, hdir, -, hsearch⟩ := h.directory
  simp only [admits, Bool.and_eq_true, Bool.not_eq_true', Option.isNone_iff_eq_none] at hadmits
  exact locate_child h.located hdir hsearch hup hadmits.1.1 hadmits.1.2 hadmits.2

theorem location_pathOf_of_isOpen (h : b.IsOpen d l) (hup : name ≠ Path.up) :
    (b.pathOf name).location d.here = l ++ [name] := by
  rw [pathOf, Path.location_child, Path.step, if_neg hup, locate_eq h.located]

theorem admits_of_locate {k : Location} (h : d.locate (b.pathOf name) = .ok k) :
    b.admits name = true := by
  obtain ⟨htaken, hlong, -, hfollow⟩ := locate_eq_ok_iff.1 h
  simp only [admits, htaken, hlong, short_of_follow hfollow, Option.isNone_none, Bool.not_false,
    Bool.and_self]

/-- What a name leads to is what there is under it in the directory. -/
theorem node?_pathOf (h : b.IsOpen d l) (hup : name ≠ Path.up) :
    d.node? (b.pathOf name) = if b.admits name then d.at? (l ++ [name]) else none := by
  cases hadmits : b.admits name with
  | true => rw [node?, locate_pathOf h hup hadmits, if_pos rfl]
  | false =>
    unfold node?
    split
    · next k hk =>
      rw [admits_of_locate hk] at hadmits
      cases hadmits
    · rfl

/-- Under a name that is not among those that changed, there is what there was. -/
theorem node?_of_sameBut {names : List Text} (h : b.IsOpen d l) (hkeeps : KeepsDirectories d d')
    (hsame : SameBut (names.map fun name => l ++ [name]) d d') (hup : name ≠ Path.up)
    (hname : name ∉ names) : d'.node? (b.pathOf name) = d.node? (b.pathOf name) := by
  have hat : d'.at? (l ++ [name]) = d.at? (l ++ [name]) := hsame.elsewhere (by simpa using hname)
  rw [node?_pathOf h hup, node?_pathOf (h.of_keeps hkeeps) hup, hat]

/-- In an empty directory no name leads to anything. -/
theorem node?_eq_none_of_entries (h : b.IsOpen d l) (hempty : d.entries l = [])
    (hup : name ≠ Path.up) (hne : name ≠ []) : d.node? (b.pathOf name) = none := by
  rw [node?_pathOf h hup]
  split
  · cases hat : d.at? (l ++ [name]) with
    | none => rfl
    | some node =>
      have hentry := mem_entries_iff.2 ⟨hne, by rw [hat]; rfl⟩
      rw [hempty] at hentry
      cases hentry
  · rfl

@[simp] theorem name_pathOf (b : Backups) (name : Text) : (b.pathOf name).name = name :=
  Path.name_child b.directory name

theorem pathOf_injective (b : Backups) : Function.Injective b.pathOf := by
  intro name other h
  simpa using congrArg Path.name h

/-! ## The list -/

theorem mem_listAmong_iff {names : List Text} {x : Backup} :
    x ∈ b.listAmong d source names ↔ ∃ name ∈ names, d.isFile (b.pathOf name) = true ∧
      ∃ created number, Backup.read? (Backup.key d.here source) name = some (created, number) ∧
        x = ⟨b.pathOf name, source, created, number⟩ := by
  simp only [listAmong, List.mem_mergeSort, List.mem_filterMap]
  constructor
  · rintro ⟨name, hname, hx⟩
    split at hx
    · next hfile =>
      obtain ⟨⟨created, number⟩, hread, rfl⟩ := Option.map_eq_some_iff.1 hx
      exact ⟨name, hname, hfile, created, number, hread, rfl⟩
    · cases hx
  · rintro ⟨name, hname, hfile, created, number, hread, rfl⟩
    refine ⟨name, hname, ?_⟩
    rw [if_pos hfile, hread]
    rfl

theorem nodup_listAmong {names : List Text} (h : names.Nodup) :
    (b.listAmong d source names).Nodup := by
  rw [listAmong, (List.mergeSort_perm _ _).nodup_iff]
  refine List.Nodup.filterMap ?_ h
  intro name other x hname hother
  have hpath : ∀ {n : Text}, (x ∈ if d.isFile (b.pathOf n) then
      (Backup.read? (Backup.key d.here source) n).map fun read =>
        (⟨b.pathOf n, source, read.1, read.2⟩ : Backup) else none) → x.path = b.pathOf n := by
    intro n hx
    split at hx
    · obtain ⟨read, -, rfl⟩ := Option.map_eq_some_iff.1 hx
      rfl
    · cases hx
  exact b.pathOf_injective ((hpath hname).symm.trans (hpath hother))

/-- Backups of which none is older than one behind it, and which are those among the names, are the
list. -/
theorem listAmong_eq {names : List Text} {found : List Backup} (hnames : names.Nodup)
    (hsorted : found.Pairwise fun x y => Backup.isOlder y x = true)
    (hmem : ∀ x, x ∈ found ↔ x ∈ b.listAmong d source names) :
    b.listAmong d source names = found := by
  have hnodup : found.Nodup := by
    refine hsorted.imp ?_
    rintro x y h rfl
    rw [Backup.isOlder_irrefl] at h
    cases h
  have hperm : (b.listAmong d source names).Perm found :=
    (List.perm_ext_iff_of_nodup (nodup_listAmong hnames) hnodup).2 fun x => (hmem x).symm
  have hlist : (b.listAmong d source names).Pairwise fun x y => (!Backup.isOlder x y) = true := by
    refine List.pairwise_mergeSort ?_ Backup.not_isOlder_total _
    intro x y z hxy hyz
    rw [Bool.not_eq_true'] at *
    exact Backup.not_isOlder_trans hxy hyz
  have hfound : found.Pairwise fun x y => (!Backup.isOlder x y) = true := by
    refine hsorted.imp fun h => ?_
    rw [Backup.isOlder_asymm h]
    rfl
  refine List.Perm.eq_of_pairwise ?_ hlist hfound hperm
  -- two that are not older than one another stand at the same place
  intro x y hx hy hxy hyx
  rw [Bool.not_eq_true'] at hxy hyx
  by_contra hne
  rcases List.pairwise_iff_getElem.1 hsorted with hget
  obtain ⟨i, hi, rfl⟩ := List.getElem_of_mem (hperm.mem_iff.1 hx)
  obtain ⟨j, hj, rfl⟩ := List.getElem_of_mem hy
  rcases Nat.lt_trichotomy i j with hij | rfl | hij
  · have := hget i j hi hj hij
    rw [hyx] at this
    cases this
  · exact hne rfl
  · have := hget j i hj hi hij
    rw [hxy] at this
    cases this

/-! ## The first free number -/

theorem freeNumber_spec (h : b.IsOpen d l) (source : Path) (created : Moment) :
    let key := Backup.key d.here source
    d.node? (b.pathOf (Backup.fileName key created (b.freeNumber d key created))) = none ∧
      ∀ n < b.freeNumber d key created,
        d.isPresent (b.pathOf (Backup.fileName key created n)) = true := by
  intro key
  have hup : ∀ n, Backup.fileName key created n ≠ Path.up :=
    fun n => (ne_up_of_key (key_prefix_fileName key created n)).1
  obtain ⟨n, hn, hfree⟩ := exists_free (Backup.fileName_injective key created) l d
  have hsome : ((List.range (d.nodes.length + 1)).find? fun n =>
      !d.isPresent (b.pathOf (Backup.fileName key created n))).isSome := by
    rw [List.find?_isSome]
    refine ⟨n, List.mem_range.2 (by omega), ?_⟩
    rw [isPresent, node?_pathOf h (hup n), hfree, ite_self]
    rfl
  obtain ⟨first, hfirst⟩ := Option.isSome_iff_exists.1 hsome
  have heq : b.freeNumber d key created = first := by
    rw [freeNumber, hfirst]
    rfl
  rw [List.find?_range_eq_some] at hfirst
  rw [heq]
  refine ⟨?_, fun k hk => ?_⟩
  · simpa [isPresent] using hfirst.1
  · simpa using hfirst.2.2 k hk

/-! ## Removing -/

/-- A file can be removed from a directory that lets it be taken out. -/
theorem removeFile_pathOf {f : File} (h : b.IsOpen d l)
    (hwrite : ∃ m, d.at? l = some (.directory m) ∧ m.grants .write = true) (hne : name ≠ [])
    (hup : name ≠ Path.up) (hf : d.node? (b.pathOf name) = some (.file f)) :
    d.removeFile (b.pathOf name) = .ok (d.erase (l ++ [name])) ∧
      KeepsDirectories d (d.erase (l ++ [name])) := by
  rw [node?_pathOf h hup] at hf
  split at hf
  · next hadmits =>
    have hnames : d.Names (b.pathOf name) (l ++ [name]) := by
      obtain ⟨m, hdir, hw⟩ := hwrite
      refine ⟨locate_pathOf h hup hadmits, by simp [Path.isEntry, hne, hup], m, ?_⟩
      exact holder_eq_ok_iff.2
        ⟨by rw [List.dropLast_concat, hdir], hw, isDetached_child h.attached hne⟩
    have herase : SameBut [l ++ [name]] d (d.erase (l ++ [name])) :=
      sameBut_erase List.mem_cons_self
    exact ⟨removeFile_file hnames hf, herase.keepsDirectories_of_not (not_directory_of_file hf)⟩
  · cases hf

/-- Files of different names in a directory that lets them be taken out are all removed. -/
theorem removeAll_of_names {names : List Text} (bs : List Backup) (h : b.IsOpen d l)
    (hwrite : ∃ m, d.at? l = some (.directory m) ∧ m.grants .write = true)
    (hpaths : bs.map (·.path) = names.map b.pathOf) (hnodup : names.Nodup)
    (hfiles : ∀ name ∈ names, name ≠ [] ∧ name ≠ Path.up ∧
      ∃ f, d.node? (b.pathOf name) = some (.file f)) :
    ∃ d', removeAll false d bs = (d', bs) ∧ KeepsDirectories d d' ∧
      SameBut (names.map fun name => l ++ [name]) d d' ∧ (d.FiledOnce → d'.FiledOnce) ∧
      ∀ name ∈ names, d'.node? (b.pathOf name) = none := by
  induction names generalizing d bs with
  | nil =>
    obtain rfl := List.map_eq_nil_iff.1 hpaths
    exact ⟨d, rfl, .refl d, .refl _ d, id, fun name hname => by cases hname⟩
  | cons name rest ih =>
    obtain ⟨backup, bs, rfl, hpath, hpaths⟩ := List.map_eq_cons_iff.1 hpaths
    obtain ⟨hnew, hnodup⟩ := List.nodup_cons.1 hnodup
    obtain ⟨hne, hup, f, hf⟩ := hfiles name List.mem_cons_self
    obtain ⟨hremoved, hkeeps⟩ := removeFile_pathOf h hwrite hne hup hf
    rw [← hpath] at hremoved
    have herase : SameBut ([name].map fun name => l ++ [name]) d (d.erase (l ++ [name])) :=
      sameBut_erase List.mem_cons_self
    have hopen := h.of_keeps hkeeps
    -- the others are still there
    have hrest : ∀ other ∈ rest, other ≠ [] ∧ other ≠ Path.up ∧
        ∃ g, (d.erase (l ++ [name])).node? (b.pathOf other) = some (.file g) := by
      intro other hmem
      obtain ⟨hne, hup, g, hg⟩ := hfiles other (List.mem_cons_of_mem _ hmem)
      have hdiff : other ∉ [name] := fun he => hnew (List.mem_singleton.1 he ▸ hmem)
      exact ⟨hne, hup, g, by rw [node?_of_sameBut h hkeeps herase hup hdiff, hg]⟩
    obtain ⟨m, hdir, hw⟩ := hwrite
    obtain ⟨d', hd', hkeeps', hsame, hfiled, hgone⟩ :=
      ih bs hopen ⟨m, hkeeps.directory hdir, hw⟩ hpaths hnodup hrest
    refine ⟨d', ?_, hkeeps.trans hkeeps', ?_, fun hd => hfiled (hd.erase _), ?_⟩
    · simp only [removeAll, hremoved, hd', Bool.false_eq_true, if_false]
    · exact (herase.mono (by simp)).trans (hsame.mono (by simp))
    · intro other hmem
      rcases List.mem_cons.1 hmem with rfl | hmem
      · -- what is gone does not come back
        rw [node?_of_sameBut hopen hkeeps' hsame hup hnew, node?_pathOf hopen hup,
          at?_erase_self _ _ (by simp), ite_self]
      · exact hgone other hmem

end Backups

end Graft
