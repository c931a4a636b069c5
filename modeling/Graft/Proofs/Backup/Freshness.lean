import Graft.Proofs.Backup.Chronicle

/-!
# Snapshots at one moment

While the clock stands still, snapshots are told apart by their numbers alone, and the highest
counts as the newest. The number of a snapshot is the first that is free. So as long as all
snapshots of the moment are kept, each gets a number above the others; but with the first one that
is removed the number zero is free again, and whoever takes it is the oldest of them all and the
first to go.

> `Chronicle.fresh_iff`: of snapshots of one source, a new one is there afterwards exactly if at
> most as many as are kept were taken before it at the same moment.
-/

namespace Graft

namespace Backups

open Disk

variable {b : Backups} {d d' start : Disk} {l : Location} {source : Path} {now : Moment}
  {backup : Backup} {f : File} {log : List Taken}

/-- The second was not taken at an earlier moment than the first. -/
def Taken.IsNoEarlier (t u : Taken) : Prop :=
  u.backup.created.parts ≤ t.backup.created.parts

theorem pairwise_of_moment (h : ∀ t ∈ log, t.backup.created = now) :
    log.Pairwise Taken.IsNoEarlier :=
  List.pairwise_iff_forall_sublist.2 fun {t u} hsub => by
    have ht := h t (hsub.subset List.mem_cons_self)
    have hu := h u (hsub.subset (List.mem_cons_of_mem _ List.mem_cons_self))
    rw [Taken.IsNoEarlier, ht, hu]

/-- How many snapshots were taken at a moment. -/
def countAt (now : Moment) (log : List Taken) : Nat :=
  log.countP (·.backup.created = now)

/-- The numbers of the snapshots of a moment. -/
def numbersAt (now : Moment) (kept : List Taken) : List Int :=
  (kept.filter (·.backup.created = now)).map (·.backup.number)

/-- The numbers that are left after `m` snapshots at one moment of which `r` are kept. -/
def numbersAfter (r m : Nat) : List Nat :=
  if m ≤ r then (List.range m).reverse else ((List.range r).map (· + 1)).reverse

theorem numbersAfter_succ {r m : Nat} (h : m ≤ r) :
    numbersAfter r (m + 1) = (m :: numbersAfter r m).take r := by
  have hrange : m :: (List.range m).reverse = (List.range (m + 1)).reverse := by
    rw [List.range_succ, List.reverse_append]
    rfl
  unfold numbersAfter
  rw [if_pos h, hrange]
  by_cases hlt : m + 1 ≤ r
  · rw [if_pos hlt, List.take_of_length_le (by simpa using hlt)]
  · obtain rfl : m = r := by omega
    rw [if_neg hlt, List.range_succ_eq_map, List.reverse_cons, List.take_left' (by simp)]

theorem numbersAfter_of_lt {r m : Nat} (h : r < m) :
    numbersAfter r m = ((List.range r).map (· + 1)).reverse := by
  rw [numbersAfter, if_neg (by omega)]

/-! ## The snapshots of one moment among those that are kept -/

variable {kept : List Taken} {t : Taken} {r : Nat}

theorem countAt_cons_self (t : Taken) (log : List Taken) :
    countAt t.backup.created (t :: log) = countAt t.backup.created log + 1 :=
  List.countP_cons_of_pos (by simp)

theorem mem_numbersAt_iff {i : Int} :
    i ∈ numbersAt now kept ↔ ∃ t ∈ kept, t.backup.created = now ∧ t.backup.number = i := by
  simp only [numbersAt, List.mem_map, List.mem_filter, decide_eq_true_eq, and_assoc]

/-- The snapshots of the last moment stand in front of all others. -/
theorem exists_split (hsorted : kept.Pairwise fun t u => Backup.isOlder u.backup t.backup = true)
    (hle : ∀ t ∈ kept, t.backup.created.parts ≤ now.parts) :
    ∃ fresh old, kept = fresh ++ old ∧ (∀ t ∈ fresh, t.backup.created = now) ∧
      ∀ t ∈ old, t.backup.created ≠ now := by
  induction kept with
  | nil => exact ⟨[], [], rfl, by simp, by simp⟩
  | cons t kept ih =>
    obtain ⟨hfirst, hsorted⟩ := List.pairwise_cons.1 hsorted
    obtain ⟨htle, hle⟩ := List.forall_mem_cons.1 hle
    by_cases ht : t.backup.created = now
    · obtain ⟨fresh, old, rfl, hfresh, hold⟩ := ih hsorted hle
      exact ⟨t :: fresh, old, rfl, List.forall_mem_cons.2 ⟨ht, hfresh⟩, hold⟩
    · refine ⟨[], t :: kept, rfl, by simp, List.forall_mem_cons.2 ⟨ht, ?_⟩⟩
      -- what is older than an earlier snapshot is of an earlier moment as well
      have hlt : t.backup.created.parts < now.parts :=
        lt_of_le_of_ne htle fun heq => ht (Moment.parts_injective heq)
      intro u hu heq
      rcases Backup.isOlder_iff.1 (hfirst u hu) with h | ⟨h, -⟩
      · rw [heq] at h
        exact lt_asymm h hlt
      · exact ht (h.symm.trans heq)

theorem numbersAt_append {fresh old : List Taken} (hfresh : ∀ t ∈ fresh, t.backup.created = now)
    (hold : ∀ t ∈ old, t.backup.created ≠ now) :
    numbersAt now (fresh ++ old) = fresh.map (·.backup.number) := by
  have hall : fresh.filter (·.backup.created = now) = fresh :=
    List.filter_eq_self.2 fun t ht => by simpa using hfresh t ht
  have hnone : old.filter (·.backup.created = now) = [] :=
    List.filter_eq_nil_iff.2 fun t ht => by simpa using hold t ht
  rw [numbersAt, List.filter_append, hall, hnone, List.append_nil]

theorem numbersAt_take (hsorted : kept.Pairwise fun t u => Backup.isOlder u.backup t.backup = true)
    (hle : ∀ t ∈ kept, t.backup.created.parts ≤ now.parts) :
    numbersAt now (kept.take r) = (numbersAt now kept).take r := by
  obtain ⟨fresh, old, rfl, hfresh, hold⟩ := exists_split hsorted hle
  rw [List.take_append, numbersAt_append hfresh hold,
    numbersAt_append (fun t ht => hfresh t (List.mem_of_mem_take ht))
      (fun t ht => hold t (List.mem_of_mem_take ht)), List.map_take]

/-- Of the snapshots taken so far, those that are kept have the numbers that are left at the moment
of the last one, and there are no others. -/
structure IsLeveled (r : Nat) (log kept : List Taken) : Prop where
  length_le : kept.length ≤ r
  taken : ∀ t ∈ kept, t ∈ log
  numbers : ∀ now, (∀ t ∈ log, t.backup.created.parts ≤ now.parts) →
    numbersAt now kept = (numbersAfter r (countAt now log)).map Int.ofNat

/-- After a snapshot, its own moment is the only one at which there can be others again. -/
theorem isLeveled_cons (htaken : ∀ u ∈ kept, u ∈ t :: log) (hlength : kept.length ≤ r)
    (hle : ∀ u ∈ log, u.backup.created.parts ≤ t.backup.created.parts)
    (hnumbers : numbersAt t.backup.created kept =
      (numbersAfter r (countAt t.backup.created log + 1)).map Int.ofNat) :
    IsLeveled r (t :: log) kept := by
  refine ⟨hlength, htaken, fun now hnow => ?_⟩
  obtain ⟨htnow, -⟩ := List.forall_mem_cons.1 hnow
  by_cases heq : t.backup.created = now
  · subst heq
    rw [hnumbers, countAt_cons_self]
  · have hnone : ∀ u ∈ t :: log, u.backup.created ≠ now := by
      refine List.forall_mem_cons.2 ⟨heq, fun u hu hunow => heq ?_⟩
      rw [← hunow] at htnow
      rw [← hunow]
      exact Moment.parts_injective (le_antisymm htnow (hle u hu))
    have hcount : countAt now (t :: log) = 0 :=
      List.countP_eq_zero.2 fun u hu => by simpa using hnone u hu
    have hkept : numbersAt now ([] ++ kept) = [] :=
      numbersAt_append (fun u hu => by cases hu) fun u hu => hnone u (htaken u hu)
    rw [List.nil_append] at hkept
    rw [hcount, hkept]
    simp [numbersAfter]

namespace IsLeveled

variable (h : IsLeveled r log kept)
  (hle : ∀ u ∈ log, u.backup.created.parts ≤ t.backup.created.parts)

include h hle

theorem isOlder_of_le (hcount : countAt t.backup.created log ≤ r)
    (hnumber : t.backup.number = countAt t.backup.created log) :
    ∀ u ∈ kept, Backup.isOlder u.backup t.backup = true := by
  intro u hu
  rcases lt_or_eq_of_le (hle u (h.taken u hu)) with hlt | heq
  · exact Backup.isOlder_iff.2 (.inl hlt)
  · have hcreated := Moment.parts_injective heq
    have hmem := mem_numbersAt_iff.2 ⟨u, hu, hcreated, rfl⟩
    rw [h.numbers _ hle, numbersAfter, if_pos hcount] at hmem
    obtain ⟨k, hk, hknumber⟩ := List.mem_map.1 hmem
    rw [List.mem_reverse, List.mem_range] at hk
    refine Backup.isOlder_iff.2 (.inr ⟨hcreated, ?_⟩)
    rw [hnumber, ← hknumber]
    exact Int.ofNat_lt.2 hk

/-- While all snapshots of the moment are kept, a new one goes in front. -/
theorem cons (hsorted : kept.Pairwise fun t u => Backup.isOlder u.backup t.backup = true)
    (hcount : countAt t.backup.created log ≤ r)
    (hnumber : t.backup.number = countAt t.backup.created log) :
    IsLeveled r (t :: log) ((t :: kept).take r) := by
  have hall : ∀ u ∈ t :: kept, u ∈ t :: log := by
    intro u hu
    rcases List.mem_cons.1 hu with rfl | hu
    · exact List.mem_cons_self
    · exact List.mem_cons_of_mem _ (h.taken u hu)
  refine isLeveled_cons (fun u hu => hall u (List.mem_of_mem_take hu)) (List.length_take_le _ _)
    hle ?_
  have hfirst := List.pairwise_cons.2 ⟨h.isOlder_of_le hle hcount hnumber, hsorted⟩
  have hbefore : ∀ u ∈ t :: kept, u.backup.created.parts ≤ t.backup.created.parts :=
    List.forall_mem_cons.2 ⟨le_refl _, fun u hu => hle u (h.taken u hu)⟩
  have hnumbers : numbersAt t.backup.created (t :: kept) =
      t.backup.number :: numbersAt t.backup.created kept := by
    rw [numbersAt, List.filter_cons_of_pos (by simp)]
    rfl
  rw [numbersAt_take hfirst hbefore, hnumbers, h.numbers _ hle, hnumber, numbersAfter_succ hcount,
    List.map_take]
  rfl

/-- Once a snapshot of the moment was removed, all that are kept are of that moment, and none has
the number zero. -/
theorem of_lt (hcount : r < countAt t.backup.created log) :
    kept.length = r ∧ ∀ u ∈ kept, u.backup.created = t.backup.created ∧ 0 < u.backup.number := by
  have hnumbers := h.numbers _ hle
  rw [numbersAfter_of_lt hcount] at hnumbers
  have hlength := congrArg List.length hnumbers
  simp only [numbersAt, List.length_map, List.length_reverse, List.length_range] at hlength
  have hfilter := List.length_filter_le (fun u : Taken => u.backup.created = t.backup.created) kept
  have hle_r := h.length_le
  have hself := List.length_filter_eq_length_iff.1
    (show (kept.filter (·.backup.created = t.backup.created)).length = kept.length by omega)
  refine ⟨by omega, fun u hu => ?_⟩
  have hcreated : u.backup.created = t.backup.created := by simpa using hself u hu
  refine ⟨hcreated, ?_⟩
  have hmem := mem_numbersAt_iff.2 ⟨u, hu, hcreated, rfl⟩
  rw [hnumbers] at hmem
  simp only [List.mem_map, List.mem_reverse, List.mem_range] at hmem
  obtain ⟨k, ⟨j, -, rfl⟩, hk⟩ := hmem
  rw [← hk]
  exact Int.ofNat_lt.2 (Nat.succ_pos j)

/-- From then on nothing changes any more at that moment. -/
theorem skip (hcount : r < countAt t.backup.created log) : IsLeveled r (t :: log) kept := by
  refine isLeveled_cons (fun u hu => List.mem_cons_of_mem _ (h.taken u hu)) h.length_le hle ?_
  rw [h.numbers _ hle, numbersAfter_of_lt hcount, numbersAfter_of_lt (by omega)]

end IsLeveled

/-! ## Snapshots of one source -/

section OneSource

variable {kept : Path → List Taken} (hv : b.IsVacant {source} start l)
  (hempty : start.entries l = []) (h : b.Holds {source} start kept d)
  (hlevel : IsLeveled b.retention log (kept source)) (hstamp : now.IsStamped)
  (hle : ∀ t ∈ log, t.backup.created.parts ≤ now.parts)

include hv hempty h hlevel hstamp hle

/-- The numbers in use at the moment are those that are left. -/
theorem isPresent_iff_mem_numbersAfter (k : Nat) :
    d.isPresent (b.pathOf (Backup.fileName (Backup.key d.here source) now k)) = true ↔
      k ∈ numbersAfter b.retention (countAt now log) := by
  rw [h.keeps.here, h.isPresent_iff hv hempty rfl hstamp, ← mem_numbersAt_iff,
    hlevel.numbers now hle, List.mem_map]
  constructor
  · rintro ⟨j, hj, heq⟩
    rw [← Int.ofNat.inj heq]
    exact hj
  · exact fun hk => ⟨k, hk, rfl⟩

theorem freeNumber_eq_count (hcount : countAt now log ≤ b.retention) :
    b.freeNumber d (Backup.key d.here source) now = countAt now log := by
  have hused : ∀ k, d.isPresent (b.pathOf (Backup.fileName (Backup.key d.here source) now k)) =
      true ↔ k < countAt now log := by
    intro k
    rw [isPresent_iff_mem_numbersAfter hv hempty h hlevel hstamp hle, numbersAfter, if_pos hcount,
      List.mem_reverse, List.mem_range]
  refine freeNumber_eq (h.isOpen hv) (fun k hk => (hused k).2 hk) ?_
  rw [Bool.eq_false_iff]
  exact fun hpresent => lt_irrefl _ ((hused _).1 hpresent)

theorem freeNumber_eq_zero_of_lt (hcount : b.retention < countAt now log) :
    b.freeNumber d (Backup.key d.here source) now = 0 := by
  refine freeNumber_eq (h.isOpen hv) (fun k hk => absurd hk (Nat.not_lt_zero k)) ?_
  rw [Bool.eq_false_iff]
  intro hpresent
  rw [isPresent_iff_mem_numbersAfter hv hempty h hlevel hstamp hle,
    numbersAfter_of_lt hcount] at hpresent
  simp at hpresent

variable (hf : d.fileAt source = .ok f)
  (hsnapshot : b.snapshot d now source = (d', .ok (.ok backup)))

include hf hsnapshot

/-- A snapshot is kept while all of its moment are. -/
theorem holds_of_le (hcount : countAt now log ≤ b.retention) :
    b.Holds {source} start (Function.update kept source
      ((⟨backup, f⟩ :: kept source).take b.retention)) d' ∧
      IsLeveled b.retention (⟨backup, f⟩ :: log) ((⟨backup, f⟩ :: kept source).take b.retention) := by
  have hrecord := record_of_snapshot (h.isOpen hv) hf hsnapshot
  rw [freeNumber_eq_count hv hempty h hlevel hstamp hle hcount] at hrecord
  subst hrecord
  have hsorted := h.sorted source rfl
  have hfirst := hlevel.isOlder_of_le
    (t := ⟨b.record d.here source now (countAt now log), f⟩) hle hcount rfl
  exact ⟨(h.snapshot hv rfl hstamp hf hsnapshot _ (fun u => List.mem_cons)
    (List.pairwise_cons.2 ⟨hfirst, hsorted⟩)).1, hlevel.cons hle hsorted hcount rfl⟩

/-- Otherwise it is gone at once. -/
theorem holds_of_lt (hcount : b.retention < countAt now log) :
    b.Holds {source} start kept d' ∧ IsLeveled b.retention (⟨backup, f⟩ :: log) (kept source) ∧
      d'.isPresent backup.path = false := by
  have hrecord := record_of_snapshot (h.isOpen hv) hf hsnapshot
  rw [freeNumber_eq_zero_of_lt hv hempty h hlevel hstamp hle hcount] at hrecord
  obtain ⟨hlength, hmoment⟩ := hlevel.of_lt (t := ⟨backup, f⟩)
    (by rw [hrecord]; exact hle) (by rw [hrecord]; exact hcount)
  -- the new one has the number zero, so it is listed behind all others and removed
  have hlast : (kept source ++ [(⟨backup, f⟩ : Taken)]).Pairwise fun t u =>
      Backup.isOlder u.backup t.backup = true := by
    refine List.pairwise_append.2 ⟨h.sorted source rfl, List.pairwise_singleton _ _, ?_⟩
    intro u hu t ht
    rw [List.mem_singleton.1 ht]
    obtain ⟨hcreated, hnumber⟩ := hmoment u hu
    refine Backup.isOlder_iff.2 (.inr ⟨hcreated.symm, ?_⟩)
    rw [hrecord]
    exact hnumber
  obtain ⟨hholds, hfree, -⟩ := h.snapshot hv rfl hstamp hf hsnapshot _
    (fun u => by rw [List.mem_append, List.mem_singleton, or_comm]) hlast
  rw [List.take_left' hlength, Function.update_eq_self] at hholds
  refine ⟨hholds, hlevel.skip (by rw [hrecord]; exact hle) (by rw [hrecord]; exact hcount), ?_⟩
  have hread : (Backup.read? (Backup.key start.here source)
      (Backup.fileName (Backup.key start.here source) now 0)).isSome := by
    rw [Backup.read?_fileName hstamp (by decide)]
    rfl
  obtain ⟨hup, hne⟩ := ne_up_of_read? hread
  have hpath : backup.path = b.pathOf (Backup.fileName (Backup.key start.here source) now 0) := by
    rw [hrecord, h.keeps.here]
    rfl
  rw [hpath] at hfree
  rw [hpath, isPresent, hholds.node?_eq rfl hread (h.not_mem_of_free rfl hfree),
    node?_eq_none_of_entries hv.isOpen hempty hup hne]
  rfl

end OneSource

/-- While the clock never goes back, what is kept is what is left of each moment. -/
theorem Chronicle.exists_kept (hv : b.IsVacant {source} start l) (hempty : start.entries l = [])
    (hrun : b.Chronicle {source} start log d) (hclock : log.Pairwise Taken.IsNoEarlier) :
    ∃ kept, b.Holds {source} start kept d ∧ IsLeveled b.retention log (kept source) := by
  induction hrun with
  | start =>
    refine ⟨fun _ => [], hv.holds, Nat.zero_le _, fun t ht => ht, fun now _ => ?_⟩
    simp [numbersAt, numbersAfter, countAt]
  | elsewhere _ hd ih =>
    obtain ⟨kept, hholds, hlevel⟩ := ih hclock
    exact ⟨kept, hholds.undisturbed hd, hlevel⟩
  | @taken log d d' s now backup f hrun hs hstamp hf hsnapshot ih =>
    obtain ⟨hle, hclock⟩ := List.pairwise_cons.1 hclock
    obtain ⟨kept, hholds, hlevel⟩ := ih hclock
    obtain rfl : s = source := hs
    have hle : ∀ t ∈ log, t.backup.created.parts ≤ now.parts := by
      rw [← (of_snapshot hsnapshot).2]
      exact hle
    rcases Nat.lt_or_ge b.retention (countAt now log) with hcount | hcount
    · obtain ⟨hholds', hlevel', -⟩ :=
        holds_of_lt hv hempty hholds hlevel hstamp hle hf hsnapshot hcount
      exact ⟨kept, hholds', hlevel'⟩
    · obtain ⟨hholds', hlevel'⟩ :=
        holds_of_le hv hempty hholds hlevel hstamp hle hf hsnapshot hcount
      refine ⟨_, hholds', ?_⟩
      rw [Function.update_self]
      exact hlevel'

/-- **When a snapshot is there after it was taken.** Of one source, and with a clock that never goes
back, a new snapshot holds the bytes of the source afterwards exactly if at most as many as are kept
were taken before it at the same moment. Otherwise nothing is there: it was removed as the oldest. -/
theorem Chronicle.fresh_iff (hv : b.IsVacant {source} start l) (hempty : start.entries l = [])
    (hrun : b.Chronicle {source} start log d) (hclock : log.Pairwise Taken.IsNoEarlier)
    (hstamp : now.IsStamped) (hle : ∀ t ∈ log, t.backup.created.parts ≤ now.parts)
    (hf : d.fileAt source = .ok f)
    (hsnapshot : b.snapshot d now source = (d', .ok (.ok backup))) :
    (d'.fileAt backup.path = .ok ⟨f.content, .ofNat f.mode⟩ ↔ countAt now log ≤ b.retention) ∧
      (b.retention < countAt now log → d'.isPresent backup.path = false) := by
  obtain ⟨kept, hholds, hlevel⟩ := hrun.exists_kept hv hempty hclock
  have hlost : b.retention < countAt now log → d'.isPresent backup.path = false :=
    fun hcount => (holds_of_lt hv hempty hholds hlevel hstamp hle hf hsnapshot hcount).2.2
  refine ⟨⟨fun hfile => ?_, fun hcount => ?_⟩, hlost⟩
  · by_contra hcount
    have hgone := hlost (by omega)
    obtain ⟨k, hk, hnode, -⟩ := fileAt_eq_ok_iff.1 hfile
    rw [isPresent, node?, hk] at hgone
    dsimp only at hgone
    rw [hnode] at hgone
    cases hgone
  · obtain ⟨hholds', -⟩ := holds_of_le hv hempty hholds hlevel hstamp hle hf hsnapshot hcount
    obtain ⟨r, hr⟩ : ∃ r, b.retention = r + 1 :=
      ⟨b.retention - 1, by have := b.one_le_retention; omega⟩
    refine (hholds'.stored source rfl ⟨backup, f⟩ ?_).fileAt
    rw [Function.update_self, hr, List.take_succ_cons]
    exact List.mem_cons_self

/-! ## Snapshots while the clock stands still -/

section Still

variable (hv : b.IsVacant {source} start l) (hempty : start.entries l = [])
  (hwrite : ∃ m, start.at? l = some (.directory m) ∧ m.grants .write = true)
  (hstamp : now.IsStamped)
  (hadmits : ∀ n ≤ b.retention,
    b.admits (Backup.fileName (Backup.key start.here source) now n) = true)

include hv hempty hwrite hstamp hadmits

/-- The next snapshot can be taken, and the source is as it was. -/
theorem Chronicle.exists_next (hrun : b.Chronicle {source} start log d)
    (hclock : log.Pairwise Taken.IsNoEarlier)
    (hle : ∀ t ∈ log, t.backup.created.parts ≤ now.parts) (hf : d.fileAt source = .ok f) :
    ∃ d' backup, b.snapshot d now source = (d', .ok (.ok backup)) ∧
      d'.fileAt source = .ok f := by
  obtain ⟨kept, hholds, hlevel⟩ := hrun.exists_kept hv hempty hclock
  obtain ⟨n, hn, hnumber⟩ :
      ∃ n ≤ b.retention, b.freeNumber d (Backup.key d.here source) now = n := by
    rcases Nat.lt_or_ge b.retention (countAt now log) with hcount | hcount
    · exact ⟨0, Nat.zero_le _,
        freeNumber_eq_zero_of_lt hv hempty hholds hlevel hstamp hle hcount⟩
    · exact ⟨_, hcount, freeNumber_eq_count hv hempty hholds hlevel hstamp hle hcount⟩
  rw [hholds.keeps.here] at hnumber
  obtain ⟨d', hsnapshot⟩ := hholds.exists_snapshot hv hwrite rfl hf hnumber (hadmits n hn)
  have hspares : Spares (source.location d.here) d (b.snapshot d now source).1 := spares_snapshot
  rw [hsnapshot] at hspares
  exact ⟨d', _, hsnapshot, hspares.fileAt hf⟩

/-- Any number of snapshots can be taken at one moment. -/
theorem exists_still (hf : start.fileAt source = .ok f) (m : Nat) :
    ∃ log d, b.Chronicle {source} start log d ∧ log.length = m ∧
      (∀ t ∈ log, t.backup.created = now) ∧ d.fileAt source = .ok f := by
  induction m with
  | zero => exact ⟨[], start, .start, rfl, List.forall_mem_nil _, hf⟩
  | succ m ih =>
    obtain ⟨log, d, hrun, hlength, hmoment, hf⟩ := ih
    obtain ⟨d', backup, hsnapshot, hf'⟩ := hrun.exists_next hv hempty hwrite hstamp hadmits
      (pairwise_of_moment hmoment) (fun t ht => by rw [hmoment t ht]) hf
    exact ⟨⟨backup, f⟩ :: log, d', hrun.taken rfl hstamp hf hsnapshot, by simp [hlength],
      List.forall_mem_cons.2 ⟨(of_snapshot hsnapshot).2, hmoment⟩, hf'⟩

end Still

/-- A file, and room for its backups. -/
def stillDisk : Disk where
  nodes := [(.of ["backups".toText], .directory Mode.newDirectory),
    (.of ["a.gradle".toText], .file ⟨⟨#[120]⟩, Mode.newFile⟩)]
  here := []

/-- The moment at which the clock stands still. -/
def stillMoment : Moment := ⟨2024, 1, 2, 3, 4, 5, 6⟩

theorem isVacant_stillDisk : oneBackup.IsVacant {plainPath} stillDisk ["backups".toText] := by
  refine isVacant_of_entries ⟨?_, ⟨Mode.newDirectory, rfl, by decide, by decide⟩, by decide⟩
    (by decide) (by decide) (Set.injOn_singleton _ _) ?_
  · exact locate_eq_ok_iff.2 ⟨by decide, by decide +kernel, fun _ => rfl, rfl⟩
  · rintro s rfl
    exact ⟨_, rfl⟩

/-- Of a file of which one backup is kept, a third snapshot is taken at one moment. -/
theorem exists_third : ∃ log d d' f backup,
    oneBackup.Chronicle {plainPath} stillDisk log d ∧ log.Pairwise Taken.IsNoEarlier ∧
    (∀ t ∈ log, t.backup.created.parts ≤ stillMoment.parts) ∧ countAt stillMoment log = 2 ∧
    d.fileAt plainPath = .ok f ∧
    oneBackup.snapshot d stillMoment plainPath = (d', .ok (.ok backup)) := by
  have hv := isVacant_stillDisk
  have hempty : stillDisk.entries ["backups".toText] = [] := by decide
  have hwrite : ∃ m, stillDisk.at? ["backups".toText] = some (.directory m) ∧
      m.grants .write = true := ⟨Mode.newDirectory, rfl, by decide⟩
  have hstamp : stillMoment.IsStamped := by decide
  have hadmits : ∀ n ≤ oneBackup.retention, oneBackup.admits
      (Backup.fileName (Backup.key stillDisk.here plainPath) stillMoment n) = true := by
    decide +kernel
  have hfile : stillDisk.fileAt plainPath = .ok ⟨⟨#[120]⟩, Mode.newFile⟩ :=
    fileAt_eq_ok_iff.2 ⟨["a.gradle".toText], by decide +kernel, rfl, by decide⟩
  obtain ⟨log, d, hrun, hlength, hmoment, hf⟩ :=
    exists_still hv hempty hwrite hstamp hadmits hfile 2
  have hclock := pairwise_of_moment hmoment
  have hle : ∀ t ∈ log, t.backup.created.parts ≤ stillMoment.parts :=
    fun t ht => by rw [hmoment t ht]
  obtain ⟨d', backup, hsnapshot, -⟩ :=
    hrun.exists_next hv hempty hwrite hstamp hadmits hclock hle hf
  refine ⟨log, d, d', _, backup, hrun, hclock, hle, ?_, hf, hsnapshot⟩
  rw [countAt, List.countP_eq_length.2 fun t ht => by simpa using hmoment t ht, hlength]

theorem fresh_iff_third : ∃ log d d' f backup,
    oneBackup.Chronicle {plainPath} stillDisk log d ∧ log.Pairwise Taken.IsNoEarlier ∧
    d.fileAt plainPath = .ok f ∧
    oneBackup.snapshot d stillMoment plainPath = (d', .ok (.ok backup)) ∧
    (d'.fileAt backup.path = .ok ⟨f.content, .ofNat f.mode⟩ ↔
      countAt stillMoment log ≤ oneBackup.retention) ∧
    (oneBackup.retention < countAt stillMoment log → d'.isPresent backup.path = false) := by
  obtain ⟨log, d, d', f, backup, hrun, hclock, hle, -, hf, hsnapshot⟩ := exists_third
  exact ⟨log, d, d', f, backup, hrun, hclock, hf, hsnapshot,
    hrun.fresh_iff isVacant_stillDisk (by decide) hclock (by decide) hle hf hsnapshot⟩

/-- A snapshot can be taken and be gone at once. -/
theorem fresh_snapshot_lost : ∃ log d d' f backup,
    oneBackup.IsVacant {plainPath} stillDisk ["backups".toText] ∧
    stillDisk.entries ["backups".toText] = [] ∧
    oneBackup.Chronicle {plainPath} stillDisk log d ∧ log.Pairwise Taken.IsNoEarlier ∧
    (∀ t ∈ log, t.backup.created.parts ≤ stillMoment.parts) ∧ d.fileAt plainPath = .ok f ∧
    oneBackup.snapshot d stillMoment plainPath = (d', .ok (.ok backup)) ∧
    d'.isPresent backup.path = false := by
  obtain ⟨log, d, d', f, backup, hrun, hclock, hle, hcount, hf, hsnapshot⟩ := exists_third
  have hempty : stillDisk.entries ["backups".toText] = [] := by decide
  obtain ⟨kept, hholds, hlevel⟩ := hrun.exists_kept isVacant_stillDisk hempty hclock
  have hlost := (holds_of_lt isVacant_stillDisk hempty hholds hlevel (by decide) hle hf hsnapshot
    (by rw [hcount]; decide)).2.2
  exact ⟨log, d, d', f, backup, isVacant_stillDisk, hempty, hrun, hclock, hle, hf, hsnapshot, hlost⟩

end Backups

end Graft
