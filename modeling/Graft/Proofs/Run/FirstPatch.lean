import Graft.Proofs.Document.Endings
import Graft.Proofs.Edit.FirstPatch
import Graft.Proofs.Run.Convergence

/-!
# The first run

A run with the built-in fragments over a file that has neither of them. If no call is refused, the
run does what the plan says (`run_of_unfailing`), and the plan is to put both fragments in, unless
there is no header to put the dependencies below (`Defaults.exists_plan`).

> `run_firstPatch`: the run fails for want of a header and leaves the file as it is, or both
> fragments are correct in the file afterwards.
-/

namespace Graft

open Run

/-! ## Runs without refusals -/

section Unfailing

variable {σ : Type} {services : Services σ} {job : Job} {path : Path} {s : σ} {doc : Document}
  {plan : Plan}

/-- No call that a run makes is refused: there is a backup, and what can be written is written
then. -/
def Services.Unfailing (services : Services σ) (path : Path) (s : σ) : Prop :=
  ∃ t backup, services.snapshot path s = (t, .ok (.ok backup)) ∧
    ∀ content, Encoding.utf8.writes content = true →
      (services.write path content t).2 = .ok (.ok ())

/-- A new text of a plan, if there is one, can be written. -/
def Plan.IsWritable (plan : Plan) : Prop :=
  ∀ text, plan.outcome = .ok (some text) → Encoding.utf8.writes text = true

theorem Plan.IsWritable.serialize (h : plan.IsWritable) (crlf : Bool) {text : Text}
    (htext : plan.outcome = .ok (some text)) :
    Encoding.utf8.writes (Document.serialize crlf text) = true := by
  rw [Document.writes_serialize]
  exact h text htext

/-- Where no call is refused and there is something to do, a run ends as its plan does. -/
theorem run_of_needed (hreal : job.dryRun = false)
    (hread : services.read path s = .ok (.ok doc))
    (hplan : Plan.ofText job.fragments job.versions doc.text = .ok plan)
    (hneed : (plan.removes || plan.adds) = true) (hwritable : plan.IsWritable)
    (hunfailing : services.Unfailing path s) :
    ∃ t r, run services job true path s = (t, .ok r) ∧
      ((∃ failure, plan.outcome = .error failure ∧ r.outcome = .failed failure ∧
          t = (services.snapshot path s).1) ∨
        (plan.outcome = .ok none ∧ r.outcome = .upToDate ∧ t = (services.snapshot path s).1) ∨
        ∃ text u, plan.outcome = .ok (some text) ∧ r.outcome = .patched ∧
          services.write path (Document.serialize doc.crlf text) (services.snapshot path s).1 =
            (u, .ok (.ok ())) ∧ t = (announce services path u).1) := by
  obtain ⟨v, backup, hgrant, hwilling⟩ := hunfailing
  have hcourse : Course services job path doc.crlf plan s (run services job true path s) := by
    rw [run_eq_perform hread hplan]
    exact perform_course (Plan.outcome_of_idle hplan)
  generalize run services job true path s = outcome at hcourse
  cases hcourse with
  | dry hdry hout =>
    rw [hreal] at hdry
    cases hdry
  | idle hremoves hadds hout hstates =>
    rw [hremoves, hadds] at hneed
    cases hneed
  | brokenDown hmeant hsnapshot =>
    rw [hgrant] at hsnapshot
    cases hsnapshot
  | refused hmeant hsnapshot hout =>
    rw [hgrant] at hsnapshot
    cases hsnapshot
  | failed hmeant hsnapshot hfailure hout =>
    exact ⟨_, _, rfl, .inl ⟨_, hfailure, hout, by rw [hsnapshot]⟩⟩
  | unchanged hmeant hsnapshot hnone hout hstates =>
    exact ⟨_, _, rfl, .inr (.inl ⟨hnone, hout, by rw [hsnapshot]⟩)⟩
  | stopped hmeant hsnapshot hneeds htext hwrite =>
    rw [hgrant] at hsnapshot
    cases hsnapshot
    have hrefused := congrArg Prod.snd hwrite
    rw [hwilling _ (hwritable.serialize _ htext)] at hrefused
    cases hrefused
  | unwritten hmeant hsnapshot hcovered htext hwrite hout =>
    rw [hgrant] at hsnapshot
    cases hsnapshot
    have hrefused := congrArg Prod.snd hwrite
    rw [hwilling _ (hwritable.serialize _ htext)] at hrefused
    cases hrefused
  | written hmeant hsnapshot hcovered htext hwrite hout hstates =>
    exact ⟨_, _, rfl, .inr (.inr ⟨_, _, htext, hout, by rw [hsnapshot]; exact hwrite, rfl⟩)⟩

/-- So does a run that has a fragment to put in. -/
theorem run_of_unfailing (hreal : job.dryRun = false)
    (hread : services.read path s = .ok (.ok doc))
    (hplan : Plan.ofText job.fragments job.versions doc.text = .ok plan)
    (hadds : plan.adds = true) (hwritable : plan.IsWritable)
    (hunfailing : services.Unfailing path s) :
    ∃ t r, run services job true path s = (t, .ok r) ∧
      ((∃ failure, plan.outcome = .error failure ∧ r.outcome = .failed failure ∧
          t = (services.snapshot path s).1) ∨
        (plan.outcome = .ok none ∧ r.outcome = .upToDate ∧ t = (services.snapshot path s).1) ∨
        ∃ text u, plan.outcome = .ok (some text) ∧ r.outcome = .patched ∧
          services.write path (Document.serialize doc.crlf text) (services.snapshot path s).1 =
            (u, .ok (.ok ())) ∧ t = (announce services path u).1) :=
  run_of_needed hreal hread hplan (by rw [hadds, Bool.or_true]) hwritable hunfailing

end Unfailing

section Room

variable {backups : Backups} {token : Text} {path : Path} {w : World} {f : File}
  {notify : Option (Path → World → World × Except Text Unit)}

/-- Whether a backup can be taken, and there is room then for a temporary file beside the file. -/
def World.hasRoom (backups : Backups) (token : Text) (path : Path) (w : World) : Bool :=
  match World.snapshot backups path w with
  | (v, .ok (.ok _)) =>
    (Commit.freeName v.disk false path Commit.tempMark token).toOption.any fun temp =>
      (v.disk.createFile temp .empty).isOk
  | _ => false

/-- No call is refused in a world with room. -/
theorem World.unfailing_of_hasRoom (hf : w.disk.fileAt path = .ok f)
    (hentry : path.isEntry = true) (hroom : w.hasRoom backups token path = true) :
    (World.servicesTelling backups token notify).Unfailing path w := by
  unfold World.hasRoom at hroom
  split at hroom
  · next v backup hsnapshot =>
    refine ⟨v, backup, hsnapshot, fun content hwrites => ?_⟩
    -- the file is still there, and there is room for a temporary one beside it
    obtain ⟨l, hl, hat, -⟩ := Disk.fileAt_eq_ok_iff.1 (World.fileAt_of_snapshot hf hsnapshot)
    cases hfree : Commit.freeName v.disk false path Commit.tempMark token with
    | error e =>
      rw [hfree] at hroom
      cases hroom
    | ok temp =>
      rw [hfree] at hroom
      cases hcreate : v.disk.createFile temp .empty with
      | error e =>
        rw [Except.toOption, Option.any_some, hcreate] at hroom
        cases hroom
      | ok d =>
        obtain ⟨d', r, hcommit⟩ :=
          Commit.commit_of_createFile hl hentry hat hfree hcreate hwrites
        show (World.write {} token path content v).2 = .ok (.ok ())
        rw [World.write, hcommit]
  · cases hroom

end Room

/-! ## The built-in fragments -/

/-- Without carriage returns, a document is written with line feeds. -/
theorem Document.crlf_ofContent {t : Text} (h : .char '\r' ∉ t) : (ofContent t).crlf = false := by
  apply isMostlyCrlf_eq_false
  rintro above below rfl hlast
  exact h (List.mem_append_left _ (List.mem_of_getLast? hlast))

section Defaults

open Defaults

variable {job : Job} {path : Path} {backups : Backups} {token t : Text} {w : World} {f : File}
  {notify : Option (Path → World → World × Except Text Unit)}

/-- A plan to have the built-in fragments in a text that can be written is to write one that can be
written, too. -/
theorem Plan.isWritable_of_fills {plan : Plan} (hfragments : job.fragments = fragmentSet)
    (hversions : Fills job.versions) (ht : Encoding.utf8.writes t = true)
    (hplan : Plan.ofText job.fragments job.versions t = .ok plan) : plan.IsWritable := by
  intro text htext
  refine Plan.writes_outcome (fun f hf rendered hr => ?_) ht hplan htext
  rw [hfragments] at hf
  exact writes_render hversions hf hr

/-- **A first patch works when it can.** Where the text of a file is balanced, has no carriage
returns and neither of the markers, and no call is refused, a run with the built-in fragments fails
for want of an anchor and leaves the file as it is, if there is no header of a block named
`dependencies`. Otherwise, if the line of the header is tidy, the run changes the file, both
fragments are correct in it, and its text is balanced. -/
theorem run_firstPatch (hfragments : job.fragments = fragmentSet) (hversions : Fills job.versions)
    (hreal : job.dryRun = false) (hf : w.disk.fileAt path = .ok f)
    (hcontent : Encoding.decode f.content = some t) (hreturn : .char '\r' ∉ t)
    (hbalance : balance t = .ok ()) (hmarkers : Unmarked t)
    (hnotify : World.LeavesAlone notify path)
    (hunfailing : (World.servicesTelling backups token notify).Unfailing path w) :
    ∃ w' r, run (World.servicesTelling backups token notify) job true path w = (w', .ok r) ∧
      match blockBrace? t "dependencies".toText with
      | none => r.isSuccess = false ∧ r.kind = .anchorNotFound ∧ w'.disk.fileAt path = .ok f
      | some brace => Tidy t brace → r.isSuccess = true ∧ r.isChanged = true ∧
          World.Converged job path w' ∧ ∃ f' t', w'.disk.fileAt path = .ok f' ∧
            Encoding.decode f'.content = some t' ∧ balance t' = .ok () := by
  have htext : (Document.ofContent t).text = t := Document.withLineFeeds_of_not_mem hreturn
  have hread : (World.servicesTelling backups token notify).read path w =
      .ok (.ok (Document.ofContent t)) := Document.read_eq_ok_iff.2 ⟨f, t, hf, hcontent, rfl⟩
  obtain ⟨plan, hplan, hadds, houtcome⟩ := exists_plan hversions hbalance hmarkers
  rw [← hfragments] at hplan
  have hsnapshot : ((World.servicesTelling backups token notify).snapshot path
      w).1.disk.fileAt path = .ok f := World.fileAt_of_snapshot hf rfl
  have hwritable : plan.IsWritable :=
    Plan.isWritable_of_fills hfragments hversions (Encoding.writes_of_decode hcontent) hplan
  obtain ⟨w', r, hrun, hend⟩ :=
    run_of_unfailing hreal hread (by rw [htext]; exact hplan) hadds hwritable hunfailing
  refine ⟨w', r, hrun, ?_⟩
  cases hbrace : blockBrace? t "dependencies".toText with
  | none =>
    rw [hbrace] at houtcome
    dsimp only at houtcome ⊢
    rw [houtcome] at hend
    rcases hend with ⟨failure, hfailure, hout, rfl⟩ | ⟨hnone, -⟩ | ⟨text, u, hsome, -⟩
    · cases hfailure
      exact ⟨Report.isSuccess_of_failed hout, by rw [Report.kind, hout]; rfl, hsnapshot⟩
    · cases hnone
    · cases hsome
  | some brace =>
    intro htidy
    rw [hbrace] at houtcome
    dsimp only at houtcome
    rw [settle_patchedText hversions hbalance hmarkers hbrace htidy] at houtcome
    rw [houtcome] at hend
    rcases hend with ⟨failure, hfailure, -⟩ | ⟨hnone, -⟩ | ⟨text, u, hsome, hout, hwrite, rfl⟩
    · cases hfailure
    · cases hnone
    · cases hsome
      obtain ⟨hwrites, m, hwritten⟩ := World.fileAt_write hsnapshot hwrite
      have htold := World.fileAt_announce backups token hnotify hwritten
      have hvalid := valid_patchedText hversions hbalance hmarkers hbrace htidy
      obtain ⟨doc', hread', heq⟩ :=
        read_of_written (return_not_mem_patchedText hversions hreturn htidy) hwrites htold
      rw [← hfragments] at hvalid
      obtain ⟨states, hstandings, hcorrect⟩ := hvalid.standings
      refine ⟨Report.isSuccess_of_patched hout, Report.isChanged_iff.2 hout,
        (converged_iff_of_read hread' (by rw [heq]; exact hstandings)).2 hcorrect, _, _, htold,
        Encoding.decode_bytes hwrites, ?_⟩
      rw [Document.crlf_ofContent hreturn]
      exact hvalid.balanced

/-! ### A template -/

/-- A text with two blocks of the name. The header of the one at the top level shares its line with
a declaration, and a comment is left open at the end. -/
def templateText : Text :=
  "buildscript \x7b\n\tdependencies \x7b\x7d\n\x7d\n".toText ++
    "dependencies \x7b compile 'a'\n\x7d\n/* \x7b".toText

/-- The path of the file. -/
def templatePath : Path := ⟨.here, ["t.gradle".toText]⟩

/-- Where its backups go. -/
def templateBackups : Backups := ⟨⟨.here, ["kept".toText]⟩, 1, Nat.one_pos⟩

/-- The file in a world with room for backups. -/
def templateWorld : World where
  disk := ⟨[(.of ["kept".toText], .directory Mode.newDirectory),
    (.of ["t.gradle".toText], .file ⟨Encoding.utf8.bytes templateText, Mode.newFile⟩)], []⟩
  clock := ⟨⟨2024, 1, 2, 3, 4, 5, 6⟩, []⟩

/-- To have the built-in fragments in it. -/
def templateJob : Job where
  fragments := fragmentSet
  versions := modern

theorem fills_modern : Fills modern := by
  have h : ∀ key ∈ keys, modern.get? key = some (valueOf modern key) ∧ valueOf modern key ≠ [] ∧
      (valueOf modern key).all isVersionChar = true := by decide +kernel
  exact fun key hkey => ⟨_, h key hkey⟩

theorem fileAt_templateWorld : templateWorld.disk.fileAt templatePath =
    .ok ⟨Encoding.utf8.bytes templateText, Mode.newFile⟩ :=
  Disk.fileAt_eq_ok_iff.2 ⟨["t.gradle".toText],
    Disk.locate_eq_ok_iff.2 ⟨by decide, by decide +kernel, fun _ => rfl, rfl⟩, rfl, by decide⟩

theorem templateWorld_unfailing :
    (World.servicesTelling templateBackups [] none).Unfailing templatePath templateWorld :=
  World.unfailing_of_hasRoom fileAt_templateWorld (by decide) (by decide +kernel)

/-- The template is patched. -/
theorem run_firstPatch_template :
    templateJob.fragments = fragmentSet ∧ Fills templateJob.versions ∧
      templateJob.dryRun = false ∧
      templateWorld.disk.fileAt templatePath =
        .ok ⟨Encoding.utf8.bytes templateText, Mode.newFile⟩ ∧
      Encoding.decode (Encoding.utf8.bytes templateText) = some templateText ∧
      .char '\r' ∉ templateText ∧ balance templateText = .ok () ∧ Unmarked templateText ∧
      World.LeavesAlone none templatePath ∧
      (World.servicesTelling templateBackups [] none).Unfailing templatePath templateWorld ∧
      blockBrace? templateText "dependencies".toText = some 46 ∧ Tidy templateText 46 ∧
      ∃ w' r, run (World.servicesTelling templateBackups [] none) templateJob true templatePath
          templateWorld = (w', .ok r) ∧ r.isSuccess = true ∧ r.isChanged = true ∧
        World.Converged templateJob templatePath w' ∧ ∃ f' t',
          w'.disk.fileAt templatePath = .ok f' ∧ Encoding.decode f'.content = some t' ∧
            balance t' = .ok () := by
  have hcontent : Encoding.decode (Encoding.utf8.bytes templateText) = some templateText :=
    Encoding.decode_bytes (by simp [templateText])
  have hreturn : .char '\r' ∉ templateText := by decide +kernel
  have hbalance : balance templateText = .ok () := eq_ok_of_toOption (by decide +kernel)
  have hmarkers : Unmarked templateText := by
    unfold Unmarked
    decide +kernel
  have halone : World.LeavesAlone none templatePath := fun tell htell => by cases htell
  have hbrace : blockBrace? templateText "dependencies".toText = some 46 := by decide +kernel
  have htidy : Tidy templateText 46 := ⟨by decide +kernel, by decide +kernel⟩
  have hfragments : templateJob.fragments = fragmentSet := rfl
  have hrun := run_firstPatch hfragments fills_modern rfl fileAt_templateWorld hcontent hreturn
    hbalance hmarkers halone templateWorld_unfailing
  rw [hbrace] at hrun
  obtain ⟨w', r, hrun, hend⟩ := hrun
  exact ⟨rfl, fills_modern, rfl, fileAt_templateWorld, hcontent, hreturn, hbalance, hmarkers,
    halone, templateWorld_unfailing, hbrace, htidy, w', r, hrun, hend htidy⟩

end Defaults

end Graft
