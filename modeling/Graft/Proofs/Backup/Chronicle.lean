import Graft.Proofs.Backup.Kept

/-!
# Runs of snapshots

A `Chronicle` is a run of snapshots of several sources that share one backup directory. Between the
snapshots anything may happen to the files, those that are listed as backups apart. With a clock
that goes on, the last snapshot of a source is its newest one, so

> `Chronicle.retains_newest`: what is listed of a source are the last snapshots taken of it, with
> the bytes that it had, and a snapshot changes nothing but itself and the oldest of its source.

What happens when the clock stands still is the subject of `Graft.Proofs.Backup.Freshness`.
-/

namespace Graft

namespace Backups

open Disk

variable {b : Backups} {d d' start : Disk} {l : Location} {sources : Set Path} {source : Path}
  {now : Moment}

/-- The snapshots taken so far of some sources, the last one first, and the disk that is left. -/
inductive Chronicle (b : Backups) (sources : Set Path) (start : Disk) : List Taken → Disk → Prop
  | start : Chronicle b sources start [] start
  | elsewhere {log : List Taken} {d d' : Disk} : Chronicle b sources start log d →
      b.Undisturbed sources d d' → Chronicle b sources start log d'
  | taken {log : List Taken} {d d' : Disk} {source : Path} {now : Moment} {backup : Backup}
      {f : File} : Chronicle b sources start log d → source ∈ sources → now.IsStamped →
      d.fileAt source = .ok f → b.snapshot d now source = (d', .ok (.ok backup)) →
      Chronicle b sources start (⟨backup, f⟩ :: log) d'

/-! ## A clock that goes on -/

/-- The first was taken at a later moment than the second. -/
def Taken.IsLater (t u : Taken) : Prop :=
  u.backup.created.parts < t.backup.created.parts

instance (t u : Taken) : Decidable (t.IsLater u) :=
  inferInstanceAs (Decidable (_ < _))

/-- The snapshots of one source. -/
def ofSource (source : Path) (log : List Taken) : List Taken :=
  log.filter (·.backup.source = source)

/-- A later snapshot goes in front of all others. -/
theorem isOlder_of_isLater {t u : Taken} (h : t.IsLater u) :
    Backup.isOlder u.backup t.backup = true :=
  Backup.isOlder_iff.2 (.inl h)

/-- While the clock goes on, the last snapshots of each source are kept. -/
theorem Chronicle.holds {log : List Taken} (hv : b.IsVacant sources start l)
    (hrun : b.Chronicle sources start log d) (hclock : log.Pairwise Taken.IsLater) :
    b.Holds sources start (fun s => (ofSource s log).take b.retention) d := by
  induction hrun with
  | start =>
    simp only [ofSource, List.filter_nil, List.take_nil]
    exact hv.holds
  | elsewhere _ hd ih => exact (ih hclock).undisturbed hd
  | @taken log d d' source now backup f hrun hs hstamp hf hsnapshot ih =>
    obtain ⟨hlater, hclock⟩ := List.pairwise_cons.1 hclock
    have hholds := ih hclock
    have hsub : ∀ {u : Taken}, u ∈ (ofSource source log).take b.retention → u ∈ log :=
      fun hu => (List.mem_filter.1 (List.mem_of_mem_take hu)).1
    have hsnap := (hholds.snapshot hv hs hstamp hf hsnapshot
      (⟨backup, f⟩ :: (ofSource source log).take b.retention)
      (fun u => List.mem_cons)
      (List.pairwise_cons.2
        ⟨fun u hu => isOlder_of_isLater (hlater u (hsub hu)), hholds.sorted source hs⟩)).1
    have hsource : backup.source = source := (of_snapshot hsnapshot).1
    convert hsnap using 1
    funext s
    by_cases hsame : s = source
    · subst hsame
      obtain ⟨r, hr⟩ : ∃ r, b.retention = r + 1 :=
        ⟨b.retention - 1, by have := b.one_le_retention; omega⟩
      rw [Function.update_self, ofSource, List.filter_cons_of_pos (by simpa using hsource), hr,
        List.take_succ_cons, List.take_succ_cons, List.take_take, Nat.min_eq_left (by omega)]
      rfl
    · rw [Function.update_of_ne hsame, ofSource,
        List.filter_cons_of_neg (by simpa [hsource] using Ne.symm hsame)]
      rfl

/-- What is listed of each source are the snapshots that were last taken of it, the newest first,
and each has the bytes that the source had. -/
def ListsNewest (b : Backups) (sources : Set Path) (log : List Taken) (d : Disk) : Prop :=
  ∀ s ∈ sources, b.list d s = .ok (((ofSource s log).take b.retention).map (·.backup)) ∧
    ∀ t ∈ (ofSource s log).take b.retention, d.fileAt t.backup.path = .ok t.copy

/-- One more snapshot is put where there was nothing, and beside it only the oldest of the same
source is gone, if there were enough of them. -/
def ReplacesOldest (b : Backups) (sources : Set Path) (log : List Taken) (d : Disk) : Prop :=
  ∀ s ∈ sources, ∀ now f d' backup, now.IsStamped →
    (∀ t ∈ log, t.backup.created.parts < now.parts) → d.fileAt s = .ok f →
    b.snapshot d now s = (d', .ok (.ok backup)) →
    d.isPresent backup.path = false ∧
    SameBut (backup.path.location d.here ::
      (((ofSource s log).take b.retention).drop (b.retention - 1)).map fun t =>
        t.backup.path.location d.here) d d'

/-- **The last snapshots of each source are kept, whatever is taken of the others.** With a clock
that goes on, what is listed of a source are the last snapshots of it with the bytes that it had,
and a snapshot changes nothing but itself and the oldest one of its source. -/
theorem Chronicle.retains_newest {log : List Taken} (hv : b.IsVacant sources start l)
    (hrun : b.Chronicle sources start log d) (hclock : log.Pairwise Taken.IsLater) :
    b.ListsNewest sources log d ∧ b.ReplacesOldest sources log d := by
  have hholds := hrun.holds hv hclock
  constructor
  · intro s hs
    exact ⟨hholds.list_eq hv hs, fun t ht => (hholds.stored s hs t ht).fileAt⟩
  · intro s hs now f d' backup hstamp hlater hf hsnapshot
    have hcreated : backup.created = now := (of_snapshot hsnapshot).2
    obtain ⟨-, hfree, hsame⟩ := hholds.snapshot hv hs hstamp hf hsnapshot
      (⟨backup, f⟩ :: (ofSource s log).take b.retention) (fun u => List.mem_cons)
      (List.pairwise_cons.2 ⟨fun u hu => isOlder_of_isLater
        (by
          rw [Taken.IsLater, hcreated]
          exact hlater u (List.mem_filter.1 (List.mem_of_mem_take hu)).1),
        hholds.sorted s hs⟩)
    refine ⟨by rw [isPresent, hfree]; rfl, ?_⟩
    obtain ⟨r, hr⟩ : ∃ r, b.retention = r + 1 :=
      ⟨b.retention - 1, by have := b.one_le_retention; omega⟩
    rw [hholds.keeps.here]
    rw [hr] at hsame ⊢
    exact hsame

/-! ## Two files in one directory of backups -/

/-- A file is read as before if it is not in the directory of the backups. -/
theorem fileAt_of_sameBut {places : List Location} {p : Path} (hkeeps : KeepsDirectories d d')
    (hsame : SameBut places d d') (hplaces : ∀ k ∈ places, k.dropLast = l)
    (hp : (p.location d.here).dropLast ≠ l) (hf : d.fileAt p = .ok f) : d'.fileAt p = .ok f := by
  obtain ⟨k, hk, hnode, hright⟩ := fileAt_eq_ok_iff.1 hf
  refine fileAt_eq_ok_iff.2 ⟨k, locate_of_keeps hkeeps hk, ?_, hright⟩
  rw [hsame.elsewhere, hnode]
  intro hmem
  rw [locate_eq hk] at hmem
  exact hp (hplaces _ hmem)

/-- In a directory that was empty at the start the next snapshot can be taken, and files elsewhere
are read as before. -/
theorem Chronicle.exists_taken {log : List Taken} (hv : b.IsVacant sources start l)
    (hempty : start.entries l = [])
    (hwrite : ∃ m, start.at? l = some (.directory m) ∧ m.grants .write = true)
    (hrun : b.Chronicle sources start log d) (hclock : log.Pairwise Taken.IsLater)
    (hs : source ∈ sources) (hstamp : now.IsStamped)
    (hlater : ∀ t ∈ log, t.backup.created.parts < now.parts) (hf : d.fileAt source = .ok f)
    (hadmits : b.admits (Backup.fileName (Backup.key start.here source) now 0) = true) :
    ∃ d', b.Chronicle sources start (⟨b.record start.here source now 0, f⟩ :: log) d' ∧
      ∀ p g, (p.location start.here).dropLast ≠ l → d.fileAt p = .ok g → d'.fileAt p = .ok g := by
  have hholds := hrun.holds hv hclock
  have hopen := hholds.isOpen hv
  have hfree : d.isPresent
      (b.pathOf (Backup.fileName (Backup.key start.here source) now 0)) = false := by
    rw [Bool.eq_false_iff]
    intro hpresent
    obtain ⟨t, ht, rfl, -⟩ := (hholds.isPresent_iff hv hempty hs hstamp).1 hpresent
    exact lt_irrefl _ (hlater t (List.mem_filter.1 (List.mem_of_mem_take ht)).1)
  have hnumber : b.freeNumber d (Backup.key start.here source) now = 0 := by
    rw [← hholds.keeps.here] at hfree ⊢
    exact freeNumber_eq hopen (fun k hk => absurd hk (Nat.not_lt_zero k)) hfree
  obtain ⟨d', hsnapshot⟩ := hholds.exists_snapshot hv hwrite hs hf hnumber hadmits
  refine ⟨d', hrun.taken hs hstamp hf hsnapshot, fun p g hp hg => ?_⟩
  obtain ⟨hholds', -, hsame⟩ := hholds.snapshot hv hs hstamp hf hsnapshot
    (⟨b.record start.here source now 0, f⟩ :: (ofSource source log).take b.retention)
    (fun u => List.mem_cons) (List.pairwise_cons.2 ⟨fun u hu => isOlder_of_isLater
      (hlater u (List.mem_filter.1 (List.mem_of_mem_take hu)).1), hholds.sorted source hs⟩)
  have hspares : Spares (source.location d.here) d (b.snapshot d now source).1 := spares_snapshot
  rw [hsnapshot] at hspares
  rw [← hholds.keeps.here] at hp
  refine fileAt_of_sameBut hspares.keeps hsame ?_ hp hg
  have hrecord : ((b.record start.here source now 0).path.location start.here).dropLast = l := by
    rw [record, location_pathOf_of_isOpen hv.isOpen (ne_up_of_key (key_prefix_fileName _ _ _)).1,
      List.dropLast_concat]
  intro k hk
  rcases List.mem_cons.1 hk with rfl | hk
  · exact hrecord
  · obtain ⟨t, ht, rfl⟩ := List.mem_map.1 hk
    rcases List.mem_cons.1 (List.mem_of_mem_drop ht) with rfl | ht
    · exact hrecord
    · rw [(hholds.stored source hs t ht).location_eq hv.isOpen, List.dropLast_concat]

/-- A place for one backup of each file. -/
def oneBackup : Backups := ⟨⟨.here, ["backups".toText]⟩, 1, by decide⟩

/-- A file. -/
def plainPath : Path := ⟨.here, ["a.gradle".toText]⟩

/-- A file whose name is that of a backup of the other. -/
def mimicPath : Path :=
  ⟨.here, [Backup.fileName (Backup.key [] plainPath) ⟨2024, 1, 1, 0, 0, 0, 0⟩ 0]⟩

/-- The two files, and room for their backups. -/
def mimicDisk : Disk where
  nodes := [(.of ["backups".toText], .directory Mode.newDirectory),
    (.of (plainPath.location []), .file ⟨⟨#[120]⟩, Mode.newFile⟩),
    (.of (mimicPath.location []), .file ⟨⟨#[121]⟩, Mode.newFile⟩)]
  here := []

theorem isVacant_mimicDisk :
    oneBackup.IsVacant {plainPath, mimicPath} mimicDisk ["backups".toText] := by
  refine isVacant_of_entries ⟨?_, ⟨Mode.newDirectory, rfl, by decide, by decide⟩, by decide⟩
    (by decide +kernel) (by decide +kernel) ?_ ?_
  · exact locate_eq_ok_iff.2 ⟨by decide, by decide +kernel, fun _ => rfl, rfl⟩
  · have hne : Backup.key [] plainPath ≠ Backup.key [] mimicPath := by decide +kernel
    rintro s (rfl | rfl) t (rfl | rfl) heq
    · rfl
    · exact absurd heq hne
    · exact absurd heq.symm hne
    · rfl
  · intro s hs
    have htaken : refusal? s = none ∧
        Encoding.utf8.writes (Path.ofLocation (s.location [])).toText = true := by
      rcases hs with rfl | rfl
      · decide +kernel
      · decide +kernel
    have hresolve : mimicDisk.resolve s = .ok (s.location []) := by
      rw [resolve, htaken.1, show isDetached mimicDisk.here = false from rfl]
      simp [mimicDisk]
    exact exists_key? hresolve htaken.2

/-- A second snapshot of one file follows one of the other. -/
def mimicLog : List Taken :=
  [⟨oneBackup.record [] plainPath ⟨2024, 1, 2, 0, 0, 2, 0⟩ 0, ⟨⟨#[120]⟩, Mode.newFile⟩⟩,
    ⟨oneBackup.record [] mimicPath ⟨2024, 1, 2, 0, 0, 1, 0⟩ 0, ⟨⟨#[121]⟩, Mode.newFile⟩⟩,
    ⟨oneBackup.record [] plainPath ⟨2024, 1, 2, 0, 0, 0, 0⟩ 0, ⟨⟨#[120]⟩, Mode.newFile⟩⟩]

theorem pairwise_mimicLog : mimicLog.Pairwise Taken.IsLater := by
  decide +kernel

theorem exists_mimicLog :
    ∃ d, oneBackup.Chronicle {plainPath, mimicPath} mimicDisk mimicLog d := by
  have hv := isVacant_mimicDisk
  have hentries : mimicDisk.entries ["backups".toText] = [] := by decide +kernel
  have hwrite : ∃ m, mimicDisk.at? ["backups".toText] = some (.directory m) ∧
      m.grants .write = true := ⟨Mode.newDirectory, rfl, by decide⟩
  have hplain : mimicDisk.fileAt plainPath = .ok ⟨⟨#[120]⟩, Mode.newFile⟩ :=
    fileAt_eq_ok_iff.2 ⟨plainPath.location [], by decide +kernel, rfl, by decide⟩
  have hmimic : mimicDisk.fileAt mimicPath = .ok ⟨⟨#[121]⟩, Mode.newFile⟩ :=
    fileAt_eq_ok_iff.2
      ⟨mimicPath.location [], by decide +kernel, by decide +kernel, by decide⟩
  have hp : ∀ p ∈ ({plainPath, mimicPath} : Set Path),
      (p.location mimicDisk.here).dropLast ≠ ["backups".toText] := by
    rintro p (rfl | rfl)
    · decide
    · decide +kernel
  obtain ⟨hlater₃, hclock₂⟩ := List.pairwise_cons.1 pairwise_mimicLog
  obtain ⟨hlater₂, hclock₁⟩ := List.pairwise_cons.1 hclock₂
  obtain ⟨d₁, hrun₁, hkeep₁⟩ := Chronicle.start.exists_taken hv hentries hwrite .nil (.inl rfl)
    (show (⟨2024, 1, 2, 0, 0, 0, 0⟩ : Moment).IsStamped by decide) (by simp) hplain
    (by decide +kernel)
  obtain ⟨d₂, hrun₂, hkeep₂⟩ := hrun₁.exists_taken hv hentries hwrite hclock₁ (.inr rfl)
    (by decide) hlater₂ (hkeep₁ _ _ (hp _ (.inr rfl)) hmimic) (by decide +kernel)
  obtain ⟨d₃, hrun₃, -⟩ := hrun₂.exists_taken hv hentries hwrite hclock₂ (.inl rfl) (by decide)
    hlater₃ (hkeep₂ _ _ (hp _ (.inl rfl)) (hkeep₁ _ _ (hp _ (.inl rfl)) hplain))
    (by decide +kernel)
  exact ⟨d₃, hrun₃⟩

theorem retains_newest_mimicDisk : ∃ d,
    oneBackup.IsVacant {plainPath, mimicPath} mimicDisk ["backups".toText] ∧
    oneBackup.Chronicle {plainPath, mimicPath} mimicDisk mimicLog d ∧
    mimicLog.Pairwise Taken.IsLater ∧
    oneBackup.ListsNewest {plainPath, mimicPath} mimicLog d ∧
    oneBackup.ReplacesOldest {plainPath, mimicPath} mimicLog d := by
  obtain ⟨d, hrun⟩ := exists_mimicLog
  exact ⟨d, isVacant_mimicDisk, hrun, pairwise_mimicLog,
    hrun.retains_newest isVacant_mimicDisk pairwise_mimicLog⟩

end Backups

end Graft
