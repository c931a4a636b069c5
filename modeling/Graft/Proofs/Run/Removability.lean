import Graft.Proofs.Edit.Removability
import Graft.Proofs.Run.Convergence

/-!
# What a run commits can be taken out again

A text is written only if nothing is missing from its fragments. That means that every fragment of
which something is required has a span in it, so that the next run can take it out when versions
change.

> `run_removable`: after a run that changed the file, every fragment of which something is required
> has a span in the file and can be taken out of it.

It does not mean as much for a fragment of which nothing is required. Its missing texts are none
whether it has a span or not; it passes for correct, is written, and cannot be taken out
(`committed_not_removable`).
-/

namespace Graft

open Run

variable {job : Job} {path : Path} {backups : Backups} {token : Text} {w w' : World} {r : Report}
  {notify : Option (Path → World → World × Except Text Unit)}

/-- In a valid text, every fragment of which something is required has a span. -/
theorem Plan.Valid.exists_span {set : FragmentSet} {versions : VersionSet} {t : Text}
    (h : Valid set versions t) {f : Fragment} (hf : f ∈ set.fragments) :
    ∃ required, f.requiredTexts versions = .ok required ∧
      (required ≠ [] → ∃ s, spanFrom t f 0 = .ok (some s)) :=
  exists_span_of_required (h.complete f hf)

/-- In a valid text, a fragment can be taken out exactly if it has a span. -/
theorem Plan.Valid.remove_eq_ok_iff {set : FragmentSet} {versions : VersionSet} {t : Text}
    (h : Valid set versions t) {f : Fragment} (hf : f ∈ set.fragments) :
    (∃ u, remove t f = .ok u) ↔ ∃ s, spanFrom t f 0 = .ok (some s) :=
  Graft.remove_eq_ok_iff (set.lineFeed_not_mem_marker hf) (set.marker_ne_nil hf) (h.once f hf)

/-- **What a run commits can be taken out again, if anything is required of it.** After a run that
changed the file, a fragment can be taken out of the file exactly if it has a span there. It has one
if anything is required of it. If nothing is, and it is made of declaration lines, it has none. -/
theorem run_removable (hreal : job.dryRun = false) (hjob : job.WithoutReturns)
    (hfile : w.disk.ReturnsEndLines path) (hnotify : World.LeavesAlone notify path)
    (hrun : run (World.servicesTelling backups token notify) job true path w = (w', .ok r))
    (hchanged : r.isChanged = true) :
    ∃ doc, Document.read w'.disk path = .ok (.ok doc) ∧ ∀ f ∈ job.fragments.fragments,
      ((∃ t, remove doc.text f = .ok t) ↔ ∃ s, spanFrom doc.text f 0 = .ok (some s)) ∧
      ∃ required, f.requiredTexts job.versions = .ok required ∧
        (required ≠ [] → ∃ s, spanFrom doc.text f 0 = .ok (some s)) ∧
        (required = [] → f.IsFlat → ¬ ∃ s, spanFrom doc.text f 0 = .ok (some s)) := by
  have hsuccess := Report.isSuccess_of_patched (Report.isChanged_iff.1 hchanged)
  obtain ⟨-, -, -, -, ⟨hsame, -⟩ | ⟨-, doc, hread, hvalid⟩⟩ :=
    read_of_success hreal hjob hfile hnotify hrun hsuccess
  · rw [hsame] at hchanged
    cases hchanged
  · refine ⟨doc, hread, fun f hf => ⟨hvalid.remove_eq_ok_iff hf, ?_⟩⟩
    obtain ⟨required, hrequired, hspan⟩ := hvalid.exists_span hf
    refine ⟨required, hrequired, hspan, ?_⟩
    rintro rfl hflat ⟨s, hs⟩
    exact spanFrom_of_nothing_required hflat hrequired s hs

/-- The fragment that was put into the empty file can be taken out again. -/
theorem run_removable_emptyFile :
    closingJob.dryRun = false ∧ closingJob.WithoutReturns ∧
      emptyFile.disk.ReturnsEndLines closingPath ∧ World.LeavesAlone grumble closingPath ∧
      ∃ w' r doc, run (World.servicesTelling noRoom [.char 't'] grumble) closingJob true closingPath
          emptyFile = (w', .ok r) ∧ r.isChanged = true ∧
        Document.read w'.disk closingPath = .ok (.ok doc) ∧
        ∃ t, remove doc.text closing = .ok t := by
  have hjob := closingJob_withoutReturns
  have hfile := emptyFile_returnsEndLines
  have halone := grumble_leavesAlone closingPath
  obtain ⟨w', r, hrun, -, hchanged⟩ := exists_closing_run
  obtain ⟨doc, hread, hall⟩ := run_removable rfl hjob hfile halone hrun hchanged
  obtain ⟨hremove, required, hrequired, hspan, -⟩ := hall closing (List.mem_singleton_self _)
  have hsome : closing.requiredTexts closingJob.versions = .ok ["implementation 'a'".toText] :=
    eq_ok_of_toOption (by decide +kernel)
  rw [hsome, Except.ok.injEq] at hrequired
  exact ⟨rfl, hjob, hfile, halone, w', r, doc, hrun, hchanged, hread,
    hremove.2 (hspan (by rw [← hrequired]; simp))⟩

/-! ### What cannot be taken out -/

/-- A fragment of braces with something between them. -/
def hollow : Fragment where
  marker := "// m".toText
  template := "\x7b\n$inner\n\x7d".toText
  anchor := .endOfFile

/-- To have the braces in a file with nothing between them. Nothing is required of them then. -/
def hollowJob : Job where
  fragments := ⟨[hollow], Fragment.checkAll_eq_ok (by decide +kernel)⟩
  versions := ⟨[.char 't'], [("inner".toText, [])]⟩
  policy := .bestEffort

/-- A run can commit a fragment that cannot be taken out. -/
theorem committed_not_removable :
    hollowJob.dryRun = false ∧ hollowJob.WithoutReturns ∧
      emptyFile.disk.ReturnsEndLines closingPath ∧
    ∃ w' r doc, run (World.servicesTelling noRoom [.char 't'] none) hollowJob true closingPath
        emptyFile = (w', .ok r) ∧ r.isChanged = true ∧
      Document.read w'.disk closingPath = .ok (.ok doc) ∧
      (¬ ∃ s, spanFrom doc.text hollow 0 = .ok (some s)) ∧
      ¬ ∃ t, remove doc.text hollow = .ok t := by
  have hjob : hollowJob.WithoutReturns := by
    intro f hf
    rw [List.mem_singleton.1 hf]
    exact ⟨by decide, by decide, by decide⟩
  have hfile := emptyFile_returnsEndLines
  have halone : World.LeavesAlone none closingPath := fun tell htell => by cases htell
  have hany : (run (World.servicesTelling noRoom [.char 't'] none) hollowJob true closingPath
      emptyFile).2.toOption.any Report.isChanged = true := by decide +kernel
  generalize hrun : run (World.servicesTelling noRoom [.char 't'] none) hollowJob true closingPath
    emptyFile = result at hany
  obtain ⟨w', b | r⟩ := result
  · cases hany
  · have hchanged : r.isChanged = true := hany
    have hsuccess := Report.isSuccess_of_patched (Report.isChanged_iff.1 hchanged)
    obtain ⟨-, -, -, -, ⟨hsame, -⟩ | ⟨-, doc, hread, hvalid⟩⟩ :=
      read_of_success rfl hjob hfile halone hrun hsuccess
    · rw [hsame] at hchanged
      cases hchanged
    · have hnothing : hollow.requiredTexts hollowJob.versions = .ok [] :=
        eq_ok_of_toOption (by decide +kernel)
      have hnone : ¬ ∃ s, spanFrom doc.text hollow 0 = .ok (some s) := by
        rintro ⟨s, hs⟩
        exact spanFrom_of_nothing_required (.inl rfl) hnothing s hs
      have hremove := hvalid.remove_eq_ok_iff (List.mem_singleton_self hollow)
      exact ⟨rfl, hjob, hfile, w', r, doc, rfl, hchanged, hread, hnone, fun h => hnone (hremove.1 h)⟩

end Graft
