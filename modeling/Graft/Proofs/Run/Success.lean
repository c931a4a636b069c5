import Graft.Proofs.Disk.Atomicity
import Graft.Proofs.Run.Effects

/-!
# What a success leaves

A run that succeeds either had no new text, and then the file is as it was, as a snapshot spares it;
or it wrote a text that is valid in memory, and then the file is read back as that text. Reading
gives back what was written because neither the file nor the job brings a carriage return into the
text (`Disk.ReturnsEndLines`, `Job.WithoutReturns`), so that the line feeds are all there is of line
ends.

> `read_of_success`: what the next reader of the file finds.
> `run_of_unchanged`: a run whose plan has no new text succeeds and writes nothing.
> `run_of_valid`: a run over a valid text has nothing to do.
-/

namespace Graft

open Run

variable {σ : Type} {services : Services σ} {job : Job} {path : Path} {s : σ} {doc : Document}
  {plan : Plan}

/-! ## Runs that change nothing -/

/-- A backup can be taken. -/
def Services.Grants (services : Services σ) (path : Path) (s : σ) : Prop :=
  ∃ t backup, services.snapshot path s = (t, .ok (.ok backup))

theorem run_eq_perform (hread : services.read path s = .ok (.ok doc))
    (hplan : Plan.ofText job.fragments job.versions doc.text = .ok plan) :
    run services job true path s = perform services job path doc.crlf plan s := by
  rw [run, if_pos rfl, hread]
  dsimp only
  rw [hplan]

/-- A plan without a new text comes to nothing, if a backup can be taken where one is asked for. -/
theorem run_of_unchanged (hreal : job.dryRun = false)
    (hread : services.read path s = .ok (.ok doc))
    (hplan : Plan.ofText job.fragments job.versions doc.text = .ok plan)
    (hnone : plan.outcome = .ok none) (hgrants : Meant job plan → services.Grants path s) :
    ∃ t r, run services job true path s = (t, .ok r) ∧ r.outcome = .upToDate ∧
      r.states = plan.states ∧
      (t = s ∨ Meant job plan ∧ t = (services.snapshot path s).1) := by
  have hcourse : Course services job path doc.crlf plan s (run services job true path s) := by
    rw [run_eq_perform hread hplan]
    exact perform_course (Plan.outcome_of_idle hplan)
  generalize run services job true path s = outcome at hcourse
  cases hcourse with
  | dry hdry hout =>
    rw [hreal] at hdry
    cases hdry
  | idle hremoves hadds hout hstates => exact ⟨s, _, rfl, hout, hstates, .inl rfl⟩
  | brokenDown hmeant hsnapshot =>
    obtain ⟨t, backup, hgrant⟩ := hgrants hmeant
    rw [hsnapshot] at hgrant
    cases hgrant
  | refused hmeant hsnapshot hout =>
    obtain ⟨t, backup, hgrant⟩ := hgrants hmeant
    rw [hsnapshot] at hgrant
    cases hgrant
  | failed hmeant hsnapshot hfailure hout =>
    rw [hnone] at hfailure
    cases hfailure
  | unchanged hmeant hsnapshot hsame hout hstates =>
    exact ⟨_, _, rfl, hout, hstates, .inr ⟨hmeant, by rw [hsnapshot]⟩⟩
  | stopped hmeant hsnapshot hneeds htext hwrite =>
    rw [hnone] at htext
    cases htext
  | unwritten hmeant hsnapshot hcovered htext hwrite hout =>
    rw [hnone] at htext
    cases htext
  | written hmeant hsnapshot hcovered htext hwrite hout hstates =>
    rw [hnone] at htext
    cases htext

/-- Where the text is valid, a run asks for nothing but the text. -/
theorem run_of_valid (hreal : job.dryRun = false) (hread : services.read path s = .ok (.ok doc))
    (hvalid : Plan.Valid job.fragments job.versions doc.text) :
    ∃ r, run services job true path s = (s, .ok r) ∧ r.outcome = .upToDate ∧
      Plan.AllCorrect job.fragments r.states := by
  obtain ⟨plan, hplan, hremoves, hadds, hcorrect⟩ := Plan.ofText_of_valid hvalid
  have hidle : ¬ Meant job plan := by
    rintro ⟨-, hneed⟩
    rw [hremoves, hadds] at hneed
    cases hneed
  have hnone := Plan.outcome_of_idle hplan hremoves hadds
  obtain ⟨t, r, hrun, hout, hstates, hstate⟩ :=
    run_of_unchanged hreal hread hplan hnone fun hmeant => absurd hmeant hidle
  obtain rfl := hstate.resolve_right fun h => hidle h.1
  refine ⟨r, hrun, hout, ?_⟩
  rw [hstates]
  exact hcorrect

/-- So it has no effects. -/
theorem run_logged_of_valid (hreal : job.dryRun = false)
    (hread : services.read path s = .ok (.ok doc))
    (hvalid : Plan.Valid job.fragments job.versions doc.text) :
    ∃ r, run services job true path s = (s, .ok r) ∧
      run services.logged job true path (s, []) = ((s, []), .ok r) ∧ r.outcome = .upToDate ∧
      Plan.AllCorrect job.fragments r.states := by
  obtain ⟨r, hrun, hout, hcorrect⟩ := run_of_valid hreal hread hvalid
  -- the run that keeps a log reads the same text, and ends where it began, too
  have hreadLogged : services.logged.read path (s, []) = .ok (.ok doc) := hread
  obtain ⟨r', hrun', -, -⟩ := run_of_valid hreal hreadLogged hvalid
  obtain ⟨log, hlog⟩ := run_logged services job true path s []
  rw [hrun, hrun', Prod.mk.injEq] at hlog
  refine ⟨r, hrun, ?_, hout, hcorrect⟩
  rw [hrun', hlog.2]

/-! ## What becomes of the file -/

namespace World

variable {backups : Backups} {token content : Text} {w w' : World} {f : File}
  {notify : Option (Path → World → World × Except Text Unit)}

/-- The services that a disk and a clock provide, with someone to be told of changes. -/
def servicesTelling (backups : Backups) (token : Text)
    (notify : Option (Path → World → World × Except Text Unit)) : Services World :=
  { World.services backups token with notify }

/-- Whoever is told of a change leaves the file as it is. -/
def LeavesAlone (notify : Option (Path → World → World × Except Text Unit)) (path : Path) : Prop :=
  ∀ tell, notify = some tell → ∀ w f, w.disk.fileAt path = .ok f →
    (tell path w).1.disk.fileAt path = .ok f

/-- A snapshot leaves the file as it is. -/
theorem fileAt_of_snapshot {answer : Answer BackupError Backup} (hf : w.disk.fileAt path = .ok f)
    (h : snapshot backups path w = (w', answer)) : w'.disk.fileAt path = .ok f := by
  unfold snapshot at h
  split at h
  · cases h
    exact hf
  · cases h
    exact Backups.spares_snapshot.fileAt hf

/-- A file that was written holds the content. -/
theorem fileAt_write {faults : Commit.Faults} (hf : w.disk.fileAt path = .ok f)
    (h : write faults token path content w = (w', .ok (.ok ()))) :
    Encoding.utf8.writes content = true ∧
      ∃ m, w'.disk.fileAt path = .ok ⟨Encoding.utf8.bytes content, m⟩ := by
  unfold write at h
  split at h
  · next d r hcommit =>
    cases h
    obtain ⟨bytes, hbytes, hfile⟩ := Commit.fileAt_of_commit hf hcommit
    obtain ⟨hwrites, rfl⟩ := Encoding.encode_eq_ok_iff.1 hbytes
    exact ⟨hwrites, _, hfile⟩
  · next d failure hcommit => cases failure <;> cases h

/-- A backup can be taken where the file has a key and the snapshot succeeds. -/
theorem grants_of_snapshot {d : Disk} {backup : Backup}
    (hkey : ∃ key, Backup.key? w.disk path = .ok key)
    (h : backups.snapshot w.disk w.clock.tick.1 path = (d, .ok (.ok backup))) :
    (servicesTelling backups token notify).Grants path w := by
  obtain ⟨key, hkey⟩ := hkey
  refine ⟨⟨d, w.clock.tick.2⟩, backup, ?_⟩
  show snapshot backups path w = _
  unfold snapshot
  rw [hkey]
  dsimp only
  rw [h]

theorem fileAt_announce (backups : Backups) (token : Text) (hnotify : LeavesAlone notify path)
    (hf : w.disk.fileAt path = .ok f) :
    (announce (servicesTelling backups token notify) path w).1.disk.fileAt path = .ok f := by
  unfold announce
  cases hn : notify with
  | none => exact hf
  | some tell =>
    have halone := hnotify tell hn w f hf
    dsimp only [servicesTelling]
    split
    · next s heq =>
      rw [heq] at halone
      exact halone
    · next s reason heq =>
      rw [heq] at halone
      exact halone

end World

/-- A text without carriage returns is read from a file as it was written to it. -/
theorem read_of_written {d : Disk} {crlf : Bool} {text : Text} {m : Mode}
    (htext : .char '\r' ∉ text)
    (hwrites : Encoding.utf8.writes (Document.serialize crlf text) = true)
    (hf : d.fileAt path = .ok ⟨Encoding.utf8.bytes (Document.serialize crlf text), m⟩) :
    ∃ doc, Document.read d path = .ok (.ok doc) ∧ doc.text = text :=
  ⟨_, Document.read_eq_ok_iff.2 ⟨_, _, hf, Encoding.decode_bytes hwrites, rfl⟩,
    Document.text_ofContent_serialize htext crlf⟩

/-! ## Runs that succeed -/

/-- No fragment of a job and no version value has a carriage return. -/
def Job.WithoutReturns (job : Job) : Prop :=
  ∀ f ∈ job.fragments.fragments, Foreign (.char '\r') f job.versions

/-- In the file at a path, every carriage return stands right before a line feed. -/
def Disk.ReturnsEndLines (d : Disk) (path : Path) : Prop :=
  ∀ f content, d.fileAt path = .ok f → Encoding.decode f.content = some content →
    Document.returnsEndLines content = true

theorem not_mem_text {d : Disk} (h : d.ReturnsEndLines path)
    (hread : Document.read d path = .ok (.ok doc)) : .char '\r' ∉ doc.text := by
  obtain ⟨f, content, hf, hcontent, rfl⟩ := Document.read_eq_ok_iff.1 hread
  intro hmem
  have hnot := (Document.mem_withLineFeeds_iff content).1 hmem
  rw [h f content hf hcontent] at hnot
  cases hnot

/-- A file tells by its text how its lines end. -/
theorem returnsEndLines_of_fileAt {d : Disk} {text : Text} {m : Mode}
    (hf : d.fileAt path = .ok ⟨Encoding.utf8.bytes text, m⟩)
    (hwrites : Encoding.utf8.writes text = true) (htext : Document.returnsEndLines text = true) :
    d.ReturnsEndLines path := by
  intro f content hf' hcontent
  rw [hf, Except.ok.injEq] at hf'
  rw [← hf', Encoding.decode_bytes hwrites, Option.some.injEq] at hcontent
  rw [← hcontent]
  exact htext

section Success

variable {backups : Backups} {token : Text} {w w' : World} {r : Report}
  {notify : Option (Path → World → World × Except Text Unit)}

/-- What a run that succeeded leaves: the file as it was, if the plan had no new text, or a file that
is read back as a valid text. -/
theorem read_of_success (hreal : job.dryRun = false) (hjob : job.WithoutReturns)
    (hfile : w.disk.ReturnsEndLines path) (hnotify : World.LeavesAlone notify path)
    (hrun : run (World.servicesTelling backups token notify) job true path w = (w', .ok r))
    (hsuccess : r.isSuccess = true) :
    ∃ doc plan, Plan.ofText job.fragments job.versions doc.text = .ok plan ∧
      r.states = plan.states ∧
      (r.isChanged = false ∧ plan.outcome = .ok none ∧
          Document.read w'.disk path = .ok (.ok doc) ∨
        r.isChanged = true ∧ ∃ doc', Document.read w'.disk path = .ok (.ok doc') ∧
          Plan.Valid job.fragments job.versions doc'.text) := by
  rcases run_cases (World.servicesTelling backups token notify) job true path w with
    ⟨hgo, -⟩ | ⟨result, hresult, hfails⟩ | ⟨doc, plan, hread, hplan, -, hcourse⟩
  · cases hgo
  · rw [hrun, Prod.mk.injEq] at hresult
    rw [(hfails r hresult.2.symm).1] at hsuccess
    cases hsuccess
  · rw [hrun] at hcourse
    obtain ⟨f, content, hf, hcontent, hdoc⟩ := Document.read_eq_ok_iff.1 hread
    obtain ⟨hstates, hcase⟩ := hcourse.of_success hreal hsuccess
    refine ⟨doc, plan, hplan, hstates, ?_⟩
    rcases hcase with ⟨hsame, rfl, hremoves, hadds⟩ | ⟨hsame, hnone, answer, hsnapshot⟩ |
      ⟨hchanged, answer, text, u, v, hsnapshot, htext, hwrite, rfl⟩
    · exact .inl ⟨hsame, Plan.outcome_of_idle hplan hremoves hadds, hread⟩
    · have hkept := World.fileAt_of_snapshot hf hsnapshot
      exact .inl ⟨hsame, hnone, Document.read_eq_ok_iff.2 ⟨f, content, hkept, hcontent, hdoc⟩⟩
    · -- the file is still there when it is written to, and what was written is still there when
      -- it has been told of
      have hkept := World.fileAt_of_snapshot hf hsnapshot
      obtain ⟨hwrites, m, hwritten⟩ := World.fileAt_write hkept hwrite
      have htold := World.fileAt_announce backups token hnotify hwritten
      have hforeign : ∀ f ∈ job.fragments.fragments, ∀ rendered,
          f.render job.versions = .ok rendered → .char '\r' ∉ rendered :=
        fun f hf _ hrender => (hjob f hf).not_mem_render (by decide) hrender
      have hpure := Plan.not_mem_outcome hforeign (by decide) (by decide) (not_mem_text hfile hread)
        hplan htext
      obtain ⟨doc', hread', heq⟩ := read_of_written hpure hwrites htold
      refine .inr ⟨hchanged, doc', hread', ?_⟩
      rw [heq]
      exact (Plan.outcome_eq_some hplan htext).2.2

end Success

end Graft
