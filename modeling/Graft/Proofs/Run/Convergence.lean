import Graft.Proofs.Run.Success

/-!
# What runs come to

A run that succeeds leaves a file with which the next run has nothing to do. The text that it wrote
is valid in memory; it is read back from the disk as it was, and there is nothing to do to a valid
text (`Plan.ofText_of_valid`). If the run wrote nothing, the next run reads the text that this one
read, and the same plan comes to the same end.

> `run_idempotent`: after a run that succeeded, the next one succeeds and changes nothing.

It does not follow that all fragments are correct then. A stale fragment that is taken out and put
in again can give the old text back; a text that is not new is not checked, and the fragment is still
stale. This is the only way in which a success is none:

> `converged_iff`: after a run that succeeded, all fragments are correct exactly if the file was
> changed or no fragment was stale.
-/

namespace Graft

open Run

variable {job : Job} {path : Path} {doc : Document} {backups : Backups} {token : Text}
  {w w' : World} {r : Report} {notify : Option (Path → World → World × Except Text Unit)}

/-! ## When success means that all is correct -/

/-- All fragments of a job are correct in the file at a path. -/
def World.Converged (job : Job) (path : Path) (w : World) : Prop :=
  ∃ states, inspect w.disk job path = .ok (.ok states) ∧ Plan.AllCorrect job.fragments states

/-- How the fragments stand in a file is how they stand in its text. -/
theorem converged_iff_of_read {states : Table Standing}
    (hread : Document.read w.disk path = .ok (.ok doc))
    (hstates : standings doc.text job.fragments.fragments job.versions = .ok states) :
    World.Converged job path w ↔ Plan.AllCorrect job.fragments states := by
  have hinspect : inspect w.disk job path = .ok (.ok states) := by
    rw [inspect, hread]
    dsimp only
    rw [hstates]
    rfl
  constructor
  · rintro ⟨states', hstates', hcorrect⟩
    rw [hinspect, Except.ok.injEq, Except.ok.injEq] at hstates'
    rw [hstates']
    exact hcorrect
  · intro hcorrect
    exact ⟨states, hinspect, hcorrect⟩

/-- **When success means that all is correct.** After a run that succeeded, all fragments are
correct exactly if the file was changed or no fragment was stale. -/
theorem converged_iff (hreal : job.dryRun = false) (hjob : job.WithoutReturns)
    (hfile : w.disk.ReturnsEndLines path) (hnotify : World.LeavesAlone notify path)
    (hrun : run (World.servicesTelling backups token notify) job true path w = (w', .ok r))
    (hsuccess : r.isSuccess = true) :
    World.Converged job path w' ↔
      r.isChanged = true ∨ Plan.NoneStale job.fragments r.states := by
  obtain ⟨doc, plan, hplan, hstates, hcase⟩ :=
    read_of_success hreal hjob hfile hnotify hrun hsuccess
  rcases hcase with ⟨hsame, hnone, hread⟩ | ⟨hchanged, doc', hread, hvalid⟩
  · obtain ⟨-, hstandings, -⟩ := Plan.ofText_eq_ok hplan
    rw [converged_iff_of_read hread hstandings, hsame, hstates]
    constructor
    · intro hcorrect
      exact .inr hcorrect.noneStale
    · rintro (hchanged | hstale)
      · cases hchanged
      · exact Plan.correct_of_unchanged hplan hnone hstale
  · obtain ⟨states, hstandings, hcorrect⟩ := hvalid.standings
    rw [converged_iff_of_read hread hstandings]
    exact ⟨fun _ => .inl hchanged, fun _ => hcorrect⟩

/-! ### A file that is changed -/

/-- A fragment for the end of a file. -/
def closing : Fragment where
  marker := [.char '#']
  template := "implementation 'a'".toText
  anchor := .endOfFile

/-- To have the fragment in a file, with a backup or without. -/
def closingJob : Job where
  fragments := ⟨[closing], Fragment.checkAll_eq_ok (by decide +kernel)⟩
  versions := ⟨[], []⟩
  policy := .bestEffort

/-- The path of the file. -/
def closingPath : Path := ⟨.here, [[.char 'f']]⟩

/-- A directory for backups that cannot be made, as it would be below the file. -/
def noRoom : Backups := ⟨⟨.here, [[.char 'f'], [.char 'b']]⟩, 1, Nat.one_pos⟩

/-- A world with nothing but the file, which is empty. -/
def emptyFile : World where
  disk := ⟨[(.of [[.char 'f']], .file ⟨Encoding.utf8.bytes [], Mode.newFile⟩)], []⟩
  clock := ⟨⟨2024, 1, 2, 3, 4, 5, 6⟩, []⟩

/-- Someone who fails when told of a change. -/
def grumble : Option (Path → World → World × Except Text Unit) :=
  some fun _ w => (w, .error [])

theorem closingJob_withoutReturns : closingJob.WithoutReturns := by
  intro f hf
  rw [List.mem_singleton.1 hf]
  exact ⟨by decide, by decide, fun e he => by cases he⟩

theorem emptyFile_returnsEndLines : emptyFile.disk.ReturnsEndLines closingPath := by
  have hf : emptyFile.disk.fileAt closingPath = .ok ⟨Encoding.utf8.bytes [], Mode.newFile⟩ :=
    Disk.fileAt_eq_ok_iff.2 ⟨[[.char 'f']],
      Disk.locate_eq_ok_iff.2 ⟨by decide, by decide +kernel, fun _ => rfl, rfl⟩, rfl, by decide⟩
  exact returnsEndLines_of_fileAt hf rfl rfl

theorem grumble_leavesAlone (path : Path) : World.LeavesAlone grumble path := by
  intro tell htell w f hf
  cases htell
  exact hf

/-- The report of a run of which something is told. -/
theorem exists_report {σ α : Type} {run : σ × Except Breakdown Report} {tell : Report → α} {a : α}
    (h : run.2.toOption.map tell = some a) : ∃ t r, run = (t, .ok r) ∧ tell r = a := by
  obtain ⟨t, result⟩ := run
  cases result with
  | error b => cases h
  | ok r => exact ⟨t, r, rfl, Option.some.inj h⟩

/-- The fragment is put into the file. -/
theorem exists_closing_run : ∃ w' r,
    run (World.servicesTelling noRoom [.char 't'] grumble) closingJob true closingPath emptyFile =
      (w', .ok r) ∧ r.isSuccess = true ∧ r.isChanged = true := by
  have htold : (run (World.servicesTelling noRoom [.char 't'] grumble) closingJob true closingPath
      emptyFile).2.toOption.map (fun r => r.isSuccess && r.isChanged) = some true := by
    decide +kernel
  obtain ⟨w', r, hrun, hr⟩ := exists_report htold
  obtain ⟨hsuccess, hchanged⟩ := Bool.and_eq_true_iff.1 hr
  exact ⟨w', r, hrun, hsuccess, hchanged⟩

/-- The fragment that was put into the empty file is correct there. -/
theorem converged_iff_emptyFile :
    closingJob.dryRun = false ∧ closingJob.WithoutReturns ∧
      emptyFile.disk.ReturnsEndLines closingPath ∧ World.LeavesAlone grumble closingPath ∧
      ∃ w' r, run (World.servicesTelling noRoom [.char 't'] grumble) closingJob true closingPath
          emptyFile = (w', .ok r) ∧ r.isSuccess = true ∧
        (World.Converged closingJob closingPath w' ↔
          r.isChanged = true ∨ Plan.NoneStale closingJob.fragments r.states) := by
  have hjob := closingJob_withoutReturns
  have hfile := emptyFile_returnsEndLines
  have halone := grumble_leavesAlone closingPath
  obtain ⟨w', r, hrun, hsuccess, -⟩ := exists_closing_run
  exact ⟨rfl, hjob, hfile, halone, w', r, hrun, hsuccess,
    converged_iff rfl hjob hfile halone hrun hsuccess⟩

/-! ### A success that is none -/

/-- A fragment that requires a text that its template does not have. -/
def demanding : Fragment where
  marker := "// m".toText
  template := "implementation 'x:core:1.0'".toText
  anchor := .inBlock "dependencies".toText
  required := ["foo".toText]

/-- A text that has the fragment just as it would be put in. -/
def demandedText : Text :=
  "dependencies \x7b\n    // m\n    implementation 'x:core:1.0'\n\x7d\n".toText

/-- To have the fragment in a file. -/
def demandingJob : Job where
  fragments := ⟨[demanding], Fragment.checkAll_eq_ok (by decide +kernel)⟩
  versions := ⟨"t".toText, []⟩

/-- The path of the file. -/
def demandingPath : Path := ⟨.here, ["b.gradle".toText]⟩

/-- A place for backups. -/
def demandingBackups : Backups := ⟨⟨.here, ["backups".toText]⟩, 5, by decide⟩

/-- The file in a world with room for backups. -/
def demandingWorld : World where
  disk := ⟨[(.of ["backups".toText], .directory Mode.newDirectory),
    (.of ["b.gradle".toText], .file ⟨Encoding.utf8.bytes demandedText, Mode.newFile⟩)], []⟩
  clock := ⟨⟨2024, 1, 2, 3, 4, 5, 6⟩, []⟩

theorem writes_demandedText : Encoding.utf8.writes demandedText = true :=
  Encoding.writes_toText _

theorem fileAt_demandingWorld : demandingWorld.disk.fileAt demandingPath =
    .ok ⟨Encoding.utf8.bytes demandedText, Mode.newFile⟩ :=
  Disk.fileAt_eq_ok_iff.2 ⟨["b.gradle".toText],
    Disk.locate_eq_ok_iff.2 ⟨by decide, by decide +kernel, fun _ => rfl, rfl⟩, rfl, by decide⟩

theorem read_demandingWorld : Document.read demandingWorld.disk demandingPath =
    .ok (.ok (Document.ofContent demandedText)) :=
  Document.read_eq_ok_iff.2
    ⟨_, _, fileAt_demandingWorld, Encoding.decode_bytes writes_demandedText, rfl⟩

/-- There is nothing in the way of a backup. -/
theorem ready_demandingWorld :
    demandingBackups.Ready demandingWorld.disk demandingWorld.clock.next demandingPath
      ["backups".toText] (Backup.fileName (Backup.key demandingWorld.disk.here demandingPath)
        demandingWorld.clock.next 0) := by
  generalize hname : Backup.fileName (Backup.key demandingWorld.disk.here demandingPath)
    demandingWorld.clock.next 0 = name
  -- the key has a digest in it, and all that matters of it is how long it is at most
  have hlength : name.length ≤ 50 := by
    have hkey := Backups.length_key_le demandingWorld.disk.here demandingPath
    have hsource : ((demandingPath.location demandingWorld.disk.here).getLast?.getD []).length = 8 :=
      rfl
    have hstamp : demandingWorld.clock.next.stamp.length = 22 := by decide
    have hnumber : (Text.padLeft 3 (.char '0') (Text.ofNat 0)).length = 3 := by decide
    have hending : Backup.ending.length = 4 := by decide
    rw [← hname]
    simp only [Backup.fileName, List.length_append, List.length_cons]
    omega
  have hnull : .ofNat 0 ∉ name := by
    rw [← hname]
    exact Backups.null_not_mem_fileName (Backups.null_not_mem_key (by decide)) (by decide) 0
  have hnameable : ∀ c ∈ name, c.isNameable = true := by
    rw [← hname]
    intro c hc
    exact Backups.isNameable_of_mem_fileName
      (fun c hc => Backups.isNameable_of_mem_key (by decide) hc) 0 hc
  have htaken : Disk.refusal? (demandingBackups.pathOf name) = none := by
    refine Disk.refusal?_eq_none_iff.2 ⟨Disk.unencodable?_eq_none ?_, ?_⟩
    · show ∀ part ∈ ["backups".toText, name], ∀ c ∈ part, c.isNameable = true
      exact List.forall_mem_cons.2 ⟨by decide, List.forall_mem_singleton.2 hnameable⟩
    · show ["backups".toText, name].any (·.elem (.ofNat 0)) = false
      have hfolder : (.ofNat 0 : CodePoint) ∉ "backups".toText := by decide
      simp [hfolder, hnull]
  exact {
    located := Disk.locate_eq_ok_iff.2 ⟨by decide, by decide +kernel, fun _ => rfl, rfl⟩
    directory := ⟨Mode.newDirectory, rfl, Mode.grants_newDirectory⟩
    attached := by decide
    keyed := Backups.exists_key? rfl (by decide)
    named := hname.symm
    free := by simp [demandingWorld, Disk.at?, Nodes.find?, Key.of]
    taken := htaken
    short := Backups.exceeds_eq_false (by simp only [Disk.maxName]; omega)
    near := by
      apply Backups.exceeds_eq_false
      show 4 * ("backups".toText ++ [CodePoint.char '/'] ++ name).length ≤ Disk.maxPath
      have hdirectory : ("backups".toText ++ [CodePoint.char '/']).length = 8 := by decide
      rw [List.length_append, hdirectory, Disk.maxPath]
      omega }

/-- Whether a plan takes the fragment out and puts it in again, to no effect. -/
def Plan.isFutile (plan : Plan) : Bool :=
  plan.states.get? demanding.marker == some .stale && match plan.outcome with
    | .ok none => true
    | _ => false

theorem exists_futile_plan : ∃ plan, Plan.ofText demandingJob.fragments demandingJob.versions
    (Document.ofContent demandedText).text = .ok plan ∧ plan.isFutile = true := by
  have h : (Plan.ofText demandingJob.fragments demandingJob.versions
      (Document.ofContent demandedText).text).toOption.any Plan.isFutile = true := by
    decide +kernel
  generalize Plan.ofText demandingJob.fragments demandingJob.versions
    (Document.ofContent demandedText).text = result at h
  cases result with
  | error e => cases h
  | ok plan => exact ⟨plan, rfl, h⟩

/-- A run can succeed and leave a fragment stale: what it put in is what it had taken out, so that
the text was not checked. -/
theorem success_not_converged :
    demandingJob.WithoutReturns ∧ demandingWorld.disk.ReturnsEndLines demandingPath ∧
    ∃ w' r, run (World.servicesTelling demandingBackups [] none) demandingJob true demandingPath
        demandingWorld = (w', .ok r) ∧
      r.isSuccess = true ∧ ¬ World.Converged demandingJob demandingPath w' := by
  refine ⟨?_, ?_, ?_⟩
  · intro f hf
    rw [List.mem_singleton.1 hf]
    exact ⟨by decide, by decide, fun e he => by cases he⟩
  · exact returnsEndLines_of_fileAt fileAt_demandingWorld writes_demandedText (by decide)
  · obtain ⟨plan, hplan, hfutile⟩ := exists_futile_plan
    obtain ⟨hstale, hnone⟩ := Bool.and_eq_true_iff.1 hfutile
    have hnone : plan.outcome = .ok none := by
      split at hnone
      · assumption
      · cases hnone
    have hread : (World.servicesTelling demandingBackups [] none).read demandingPath
        demandingWorld = .ok (.ok (Document.ofContent demandedText)) := read_demandingWorld
    have hgrants : (World.servicesTelling demandingBackups [] none).Grants demandingPath
        demandingWorld := by
      obtain ⟨d, backup, hsnapshot⟩ :=
        Backups.snapshot_of_ready ready_demandingWorld fileAt_demandingWorld
      exact World.grants_of_snapshot ready_demandingWorld.keyed hsnapshot
    obtain ⟨w', r, hrun, hout, -, hstate⟩ :=
      run_of_unchanged rfl hread hplan hnone fun _ => hgrants
    -- the backup was all that the run did, so the fragment is as stale as it was
    refine ⟨w', r, hrun, Report.isSuccess_of_upToDate hout, ?_⟩
    have hfile : w'.disk.fileAt demandingPath =
        .ok ⟨Encoding.utf8.bytes demandedText, Mode.newFile⟩ := by
      rcases hstate with rfl | ⟨-, rfl⟩
      · exact fileAt_demandingWorld
      · exact World.fileAt_of_snapshot fileAt_demandingWorld rfl
    have hagain : Document.read w'.disk demandingPath =
        .ok (.ok (Document.ofContent demandedText)) :=
      Document.read_eq_ok_iff.2 ⟨_, _, hfile, Encoding.decode_bytes writes_demandedText, rfl⟩
    obtain ⟨-, hstandings, -⟩ := Plan.ofText_eq_ok hplan
    rw [converged_iff_of_read hagain hstandings]
    intro hcorrect
    have hmem : demanding ∈ demandingJob.fragments.fragments := List.mem_singleton_self _
    rw [hcorrect demanding hmem] at hstale
    cases hstale

/-! ## The next run -/

/-- **Runs are idempotent.** After a run that succeeded, the next one succeeds, changes nothing and
leaves the file as it is, if a backup can be taken in case the first run changed nothing either. If
the first run changed the file, the next one finds all fragments correct and has no effects. -/
theorem run_idempotent (hreal : job.dryRun = false) (hjob : job.WithoutReturns)
    (hfile : w.disk.ReturnsEndLines path) (hnotify : World.LeavesAlone notify path)
    (hrun : run (World.servicesTelling backups token notify) job true path w = (w', .ok r))
    (hsuccess : r.isSuccess = true)
    (hgrants : r.isChanged = false →
      (World.servicesTelling backups token notify).Grants path w') :
    ∃ w₂ r₂ f,
      run (World.servicesTelling backups token notify) job true path w' = (w₂, .ok r₂) ∧
      r₂.isSuccess = true ∧ r₂.isChanged = false ∧
      w'.disk.fileAt path = .ok f ∧ w₂.disk.fileAt path = .ok f ∧
      (r.isChanged = true → Plan.AllCorrect job.fragments r₂.states ∧
        run (World.servicesTelling backups token notify).logged job true path (w', []) =
          ((w', []), .ok r₂)) := by
  obtain ⟨doc, plan, hplan, hstates, hcase⟩ :=
    read_of_success hreal hjob hfile hnotify hrun hsuccess
  rcases hcase with ⟨hsame, hnone, hread⟩ | ⟨hchanged, doc', hread, hvalid⟩
  · have hread' : (World.servicesTelling backups token notify).read path w' = .ok (.ok doc) := hread
    obtain ⟨w₂, r₂, hrun₂, hout, -, hstate⟩ :=
      run_of_unchanged hreal hread' hplan hnone fun _ => hgrants hsame
    obtain ⟨f, content, hf, -⟩ := Document.read_eq_ok_iff.1 hread
    refine ⟨w₂, r₂, f, hrun₂, Report.isSuccess_of_upToDate hout, Report.isChanged_of_upToDate hout,
      hf, ?_, ?_⟩
    · rcases hstate with rfl | ⟨-, rfl⟩
      · exact hf
      · exact World.fileAt_of_snapshot hf rfl
    · intro hchanged
      rw [hsame] at hchanged
      cases hchanged
  · have hread' : (World.servicesTelling backups token notify).read path w' = .ok (.ok doc') :=
      hread
    obtain ⟨r₂, hrun₂, hlogged, hout, hcorrect⟩ := run_logged_of_valid hreal hread' hvalid
    obtain ⟨f, content, hf, -⟩ := Document.read_eq_ok_iff.1 hread
    exact ⟨w', r₂, f, hrun₂, Report.isSuccess_of_upToDate hout, Report.isChanged_of_upToDate hout,
      hf, hf, fun _ => ⟨hcorrect, hlogged⟩⟩

/-- Once the fragment was put into the empty file, the next run has nothing to do. -/
theorem run_idempotent_emptyFile :
    closingJob.dryRun = false ∧ closingJob.WithoutReturns ∧
      emptyFile.disk.ReturnsEndLines closingPath ∧ World.LeavesAlone grumble closingPath ∧
      ∃ w' r, run (World.servicesTelling noRoom [.char 't'] grumble) closingJob true closingPath
          emptyFile = (w', .ok r) ∧ r.isSuccess = true ∧ r.isChanged = true ∧
        ∃ w₂ r₂ f,
          run (World.servicesTelling noRoom [.char 't'] grumble) closingJob true closingPath w' =
            (w₂, .ok r₂) ∧
          r₂.isSuccess = true ∧ r₂.isChanged = false ∧
          w'.disk.fileAt closingPath = .ok f ∧ w₂.disk.fileAt closingPath = .ok f ∧
          (r.isChanged = true → Plan.AllCorrect closingJob.fragments r₂.states ∧
            run (World.servicesTelling noRoom [.char 't'] grumble).logged closingJob
              true closingPath (w', []) = ((w', []), .ok r₂)) := by
  have hjob := closingJob_withoutReturns
  have hfile := emptyFile_returnsEndLines
  have halone := grumble_leavesAlone closingPath
  obtain ⟨w', r, hrun, hsuccess, hchanged⟩ := exists_closing_run
  refine ⟨rfl, hjob, hfile, halone, w', r, hrun, hsuccess, hchanged, ?_⟩
  refine run_idempotent rfl hjob hfile halone hrun hsuccess fun hsame => ?_
  rw [hsame] at hchanged
  cases hchanged

end Graft
