import Graft.Proofs.Edit.Upgrade
import Graft.Proofs.Run.FirstPatch

/-!
# Upgrades

Runs with the built-in fragments over one file, one after the other, each with versions of its own
(`upgrades`). The first of them finds neither of the markers. If it succeeds, the text that it found
is a host (`Defaults.exists_host_of_outcome`), and from then on the file holds the fragments with
the versions of the last run (`World.Hosts`). One run preserves this (`run_of_hosts`), and by
induction on the versions so do any number of them (`upgrades_of_hosts`).

> `run_upgrades`: if the first run succeeds, so do those that follow, and they leave the lines of a
> single run with the last of the versions, blanks apart.

That no call is refused (`Services.UnfailingThrough`) is asked of every run, whether it makes the
calls or not: one that finds the fragments as they should be takes no backup and writes nothing.
-/

namespace Graft

open Run

/-! ## Runs in a row -/

section Upgrades

variable {σ : Type}

/-- What comes of runs over a file, one after the other, each with versions of its own. -/
def upgrades (services : Services σ) (job : Job) (path : Path) :
    List VersionSet → σ → σ × List (Except Breakdown Report)
  | [], s => (s, [])
  | V :: Vs, s =>
    let (t, result) := run services { job with versions := V } true path s
    let (u, results) := upgrades services job path Vs t
    (u, result :: results)

/-- No call is refused in any of the runs. -/
def Services.UnfailingThrough (services : Services σ) (job : Job) (path : Path) :
    List VersionSet → σ → Prop
  | [], _ => True
  | V :: Vs, s => services.Unfailing path s ∧
      services.UnfailingThrough job path Vs (run services { job with versions := V } true path s).1

end Upgrades

/-- The plan of a run that succeeds does not fail. -/
theorem exists_plan_of_success {σ : Type} {services : Services σ} {job : Job} {path : Path} {s s' : σ}
    {doc : Document} {r : Report} (hreal : job.dryRun = false)
    (hread : services.read path s = .ok (.ok doc))
    (hrun : run services job true path s = (s', .ok r)) (hsuccess : r.isSuccess = true) :
    ∃ plan new, Plan.ofText job.fragments job.versions doc.text = .ok plan ∧
      plan.outcome = .ok new := by
  rcases run_cases services job true path s with
    ⟨hgo, -⟩ | ⟨result, hresult, hfails⟩ | ⟨doc', plan, hread', hplan, -, hcourse⟩
  · cases hgo
  · rw [hrun, Prod.mk.injEq] at hresult
    rw [(hfails r hresult.2.symm).1] at hsuccess
    cases hsuccess
  · rw [hread, Except.ok.injEq, Except.ok.injEq] at hread'
    rw [← hread'] at hplan
    rw [hrun] at hcourse
    obtain ⟨-, ⟨-, -, hremoves, hadds⟩ | ⟨-, hnone, -⟩ | ⟨-, -, text, -, -, -, htext, -⟩⟩ :=
      hcourse.of_success hreal hsuccess
    · exact ⟨plan, none, hplan, Plan.outcome_of_idle hplan hremoves hadds⟩
    · exact ⟨plan, none, hplan, hnone⟩
    · exact ⟨plan, some text, hplan, htext⟩

/-- A new text is written where no call is refused. -/
theorem run_of_some {σ : Type} {services : Services σ} {job : Job} {path : Path} {s : σ}
    {doc : Document} {plan : Plan} {new : Text} (hreal : job.dryRun = false)
    (hread : services.read path s = .ok (.ok doc))
    (hplan : Plan.ofText job.fragments job.versions doc.text = .ok plan)
    (hsome : plan.outcome = .ok (some new)) (hwritable : plan.IsWritable)
    (hunfailing : services.Unfailing path s) :
    ∃ u r, run services job true path s = ((announce services path u).1, .ok r) ∧
      r.outcome = .patched ∧ services.write path (Document.serialize doc.crlf new)
        (services.snapshot path s).1 = (u, .ok (.ok ())) := by
  have hneed : (plan.removes || plan.adds) = true := by
    refine Bool.of_not_eq_false fun hidle => ?_
    obtain ⟨hremoves, hadds⟩ := Bool.or_eq_false_iff.1 hidle
    rw [Plan.outcome_of_idle hplan hremoves hadds] at hsome
    cases hsome
  obtain ⟨t, r, hrun, hend⟩ := run_of_needed hreal hread hplan hneed hwritable hunfailing
  rw [hsome] at hend
  rcases hend with ⟨failure, hfailure, -⟩ | ⟨hnone, -⟩ | ⟨text, u, heq, hout, hwrite, rfl⟩
  · cases hfailure
  · cases hnone
  · cases heq
    exact ⟨u, r, hrun, hout, hwrite⟩

section Defaults

open Defaults Text

variable {job : Job} {path : Path} {backups : Backups} {token t text new core b : Text} {w w' : World}
  {f : File} {V W : VersionSet} {r : Report} {brace : Nat}
  {notify : Option (Path → World → World × Except Text Unit)}

/-- A run with the built-in fragments succeeds if its plan has a text for it and no call is refused.
That text is in the file then. -/
theorem run_of_outcome {plan : Plan} (hfragments : job.fragments = fragmentSet)
    (hversions : Fills job.versions) (hreal : job.dryRun = false)
    (hf : w.disk.fileAt path = .ok f) (hcontent : Encoding.decode f.content = some text)
    (hreturn : .char '\r' ∉ text) (hplan : Plan.ofText job.fragments job.versions text = .ok plan)
    (houtcome : plan.outcome = .ok (if new = text then none else some new))
    (hnotify : World.LeavesAlone notify path)
    (hunfailing : (World.servicesTelling backups token notify).Unfailing path w) :
    ∃ w' r f', run (World.servicesTelling backups token notify) job true path w = (w', .ok r) ∧
      r.isSuccess = true ∧ w'.disk.fileAt path = .ok f' ∧
      Encoding.decode f'.content = some new := by
  have htext : (Document.ofContent text).text = text := Document.withLineFeeds_of_not_mem hreturn
  have hread : (World.servicesTelling backups token notify).read path w =
      .ok (.ok (Document.ofContent text)) := Document.read_eq_ok_iff.2 ⟨f, text, hf, hcontent, rfl⟩
  have hsnapshot : ((World.servicesTelling backups token notify).snapshot path
      w).1.disk.fileAt path = .ok f := World.fileAt_of_snapshot hf rfl
  have hwritable : plan.IsWritable :=
    Plan.isWritable_of_fills hfragments hversions (Encoding.writes_of_decode hcontent) hplan
  replace hplan : Plan.ofText job.fragments job.versions (Document.ofContent text).text =
      .ok plan := by rw [htext, hplan]
  split at houtcome
  · next hsame =>
    obtain ⟨v, backup, hgrant, -⟩ := hunfailing
    obtain ⟨w', r, hrun, hout, -, hstate⟩ :=
      run_of_unchanged hreal hread hplan houtcome fun _ => ⟨v, backup, hgrant⟩
    refine ⟨w', r, f, hrun, Report.isSuccess_of_upToDate hout, ?_, by rw [hcontent, hsame]⟩
    rcases hstate with rfl | ⟨-, rfl⟩
    · exact hf
    · exact hsnapshot
  · obtain ⟨u, r, hrun, hout, hwrite⟩ :=
      run_of_some hreal hread hplan houtcome hwritable hunfailing
    obtain ⟨hwrites, m, hwritten⟩ := World.fileAt_write hsnapshot hwrite
    have htold := World.fileAt_announce backups token hnotify hwritten
    rw [Document.crlf_ofContent hreturn] at hwrites htold
    exact ⟨_, r, _, hrun, Report.isSuccess_of_patched hout, htold, Encoding.decode_bytes hwrites⟩

/-- The file at a path holds a text with the fragments in it. -/
def World.Hosts (V : VersionSet) (t : Text) (brace : Nat) (core : Text) (path : Path) (w : World) :
    Prop :=
  ∃ f b, w.disk.fileAt path = .ok f ∧
    Encoding.decode f.content = some (hosted V t brace b core) ∧ IsGap b

/-- A run over a text that can host the fragments succeeds, and the file holds them then. -/
theorem run_of_host (h : Host t brace core) (hb : IsGap b)
    (hpatched : patchedText job.versions t brace = hosted job.versions t brace b core)
    (hreturn : .char '\r' ∉ t) (hfragments : job.fragments = fragmentSet)
    (hreal : job.dryRun = false) (hversions : Fills job.versions) (hf : w.disk.fileAt path = .ok f)
    (hcontent : Encoding.decode f.content = some t) (hnotify : World.LeavesAlone notify path)
    (hunfailing : (World.servicesTelling backups token notify).Unfailing path w) :
    ∃ w' r, run (World.servicesTelling backups token notify) job true path w = (w', .ok r) ∧
      r.isSuccess = true ∧ w'.Hosts job.versions t brace core path := by
  obtain ⟨plan, hplan, houtcome⟩ := h.exists_plan_host hversions hb hpatched
  rw [← hfragments] at hplan
  obtain ⟨w', r, f', hrun, hsuccess, hf', hcontent'⟩ :=
    run_of_outcome hfragments hversions hreal hf hcontent hreturn hplan houtcome hnotify hunfailing
  exact ⟨w', r, hrun, hsuccess, f', b, hf', hcontent', hb⟩

/-- One run more succeeds, and the file holds the fragments with its versions then. -/
theorem run_of_hosts (h : Host t brace core) (hreturn : .char '\r' ∉ t)
    (hfragments : job.fragments = fragmentSet) (hreal : job.dryRun = false) (hV : Fills V)
    (hversions : Fills job.versions) (hnotify : World.LeavesAlone notify path)
    (hw : w.Hosts V t brace core path)
    (hunfailing : (World.servicesTelling backups token notify).Unfailing path w) :
    ∃ w' r, run (World.servicesTelling backups token notify) job true path w = (w', .ok r) ∧
      r.isSuccess = true ∧ w'.Hosts job.versions t brace core path := by
  obtain ⟨f, b, hf, hcontent, hb⟩ := hw
  obtain ⟨plan, b', hplan, hb', houtcome⟩ := h.exists_plan_hosted hV hversions hb
  rw [← hfragments] at hplan
  obtain ⟨w', r, f', hrun, hsuccess, hf', hcontent'⟩ :=
    run_of_outcome hfragments hversions hreal hf hcontent
    (h.return_not_mem_hosted hV hb hreturn) hplan houtcome hnotify hunfailing
  exact ⟨w', r, hrun, hsuccess, f', b', hf', hcontent', hb'⟩

/-- So do any number of runs more, and the file holds the fragments with the versions of the last. -/
theorem upgrades_of_hosts {Vs : List VersionSet} (h : Host t brace core) (hreturn : .char '\r' ∉ t)
    (hfragments : job.fragments = fragmentSet) (hreal : job.dryRun = false)
    (hversions : ∀ W ∈ V :: Vs, Fills W) (hnotify : World.LeavesAlone notify path)
    (hw : w.Hosts V t brace core path)
    (hunfailing : (World.servicesTelling backups token notify).UnfailingThrough job path Vs w) :
    ∃ (w' : World) (reports : List Report),
      upgrades (World.servicesTelling backups token notify) job path Vs w =
        (w', reports.map .ok) ∧ (∀ r ∈ reports, r.isSuccess = true) ∧
      w'.Hosts ((V :: Vs).getLast (List.cons_ne_nil _ _)) t brace core path := by
  induction Vs generalizing V w with
  | nil => exact ⟨w, [], rfl, by simp, hw⟩
  | cons W Vs ih =>
    obtain ⟨hV, hrest⟩ := List.forall_mem_cons.1 hversions
    obtain ⟨hnow, hlater⟩ := hunfailing
    have hset : Job.fragments { job with versions := W } = fragmentSet := hfragments
    obtain ⟨v, r, hrun, hsuccess, hv⟩ :=
      run_of_hosts h hreturn hset hreal hV (hrest W List.mem_cons_self) hnotify hw hnow
    rw [hrun] at hlater
    obtain ⟨w', reports, hruns, hall, hw'⟩ := ih hrest hv hlater
    refine ⟨w', r :: reports, ?_, List.forall_mem_cons.2 ⟨hsuccess, hall⟩, ?_⟩
    · rw [upgrades, hrun]
      dsimp only
      rw [hruns]
      rfl
    · rwa [List.getLast_cons (List.cons_ne_nil W Vs)]

/-- **Upgrading leaves no trace of earlier versions.** Where a run with the built-in fragments succeeds
over a text that has no carriage returns and neither of the markers, and no call is refused in it and
in the runs with other versions that follow, these succeed, too. Blanks apart, they leave the lines
that a run with the last of the versions leaves if it is the only one. -/
theorem run_upgrades {first : VersionSet} {later : List VersionSet}
    (hfragments : job.fragments = fragmentSet) (hreal : job.dryRun = false)
    (hversions : ∀ V ∈ first :: later, Fills V) (hf : w.disk.fileAt path = .ok f)
    (hcontent : Encoding.decode f.content = some t) (hreturn : .char '\r' ∉ t)
    (hmarkers : Unmarked t) (hnotify : World.LeavesAlone notify path)
    (hunfailing : (World.servicesTelling backups token notify).UnfailingThrough job path
      (first :: later) w)
    (hrun : run (World.servicesTelling backups token notify) { job with versions := first } true path
      w = (w', .ok r))
    (hsuccess : r.isSuccess = true) :
    ∃ (w₁ : World) (reports : List Report) (f₁ : File) (t₁ : Text),
      upgrades (World.servicesTelling backups token notify) job path later w' =
        (w₁, reports.map .ok) ∧ (∀ r ∈ reports, r.isSuccess = true) ∧
      w₁.disk.fileAt path = .ok f₁ ∧ Encoding.decode f₁.content = some t₁ ∧
      ∃ w₂ r₂ f₂ t₂, run (World.servicesTelling backups token notify)
          { job with versions := (first :: later).getLast (List.cons_ne_nil _ _) } true path w =
            (w₂, .ok r₂) ∧ r₂.isSuccess = true ∧ w₂.disk.fileAt path = .ok f₂ ∧
        Encoding.decode f₂.content = some t₂ ∧ solidLines t₁ = solidLines t₂ := by
  obtain ⟨hnow, hlater⟩ := hunfailing
  rw [hrun] at hlater
  have hfirst := hversions first List.mem_cons_self
  have hlast := hversions _ (List.getLast_mem (List.cons_ne_nil first later))
  -- that the first run succeeds says where the fragments go
  have hread : (World.servicesTelling backups token notify).read path w =
      .ok (.ok (Document.ofContent t)) := Document.read_eq_ok_iff.2 ⟨f, t, hf, hcontent, rfl⟩
  have hset : ∀ V, Job.fragments { job with versions := V } = fragmentSet := fun _ => hfragments
  have hdry : ∀ V, Job.dryRun { job with versions := V } = false := fun _ => hreal
  obtain ⟨plan, new, hplan, houtcome⟩ := exists_plan_of_success (hdry first) hread hrun hsuccess
  rw [show (Document.ofContent t).text = t from Document.withLineFeeds_of_not_mem hreturn,
    hset first] at hplan
  obtain ⟨brace, core, b, h, hb, hpatched⟩ :=
    exists_host_of_outcome hfirst hmarkers hreturn hplan houtcome
  have halone : ∀ V, Fills V → ∃ v r',
      run (World.servicesTelling backups token notify) { job with versions := V } true path w =
        (v, .ok r') ∧ r'.isSuccess = true ∧ v.Hosts V t brace core path := by
    intro V hV
    exact run_of_host h hb (hpatched V) hreturn (hset V) (hdry V) hV hf hcontent hnotify hnow
  obtain ⟨v, r', hrun', -, hv⟩ := halone first hfirst
  obtain rfl : w' = v := (Prod.mk.inj (hrun.symm.trans hrun')).1
  obtain ⟨w₁, reports, hruns, hall, f₁, b₁, hf₁, hcontent₁, hb₁⟩ :=
    upgrades_of_hosts h hreturn hfragments hreal hversions hnotify hv hlater
  obtain ⟨w₂, r₂, hrun₂, hsuccess₂, f₂, b₂, hf₂, hcontent₂, hb₂⟩ := halone _ hlast
  refine ⟨w₁, reports, f₁, _, hruns, hall, hf₁, hcontent₁, w₂, r₂, f₂, _, hrun₂, hsuccess₂, hf₂,
    hcontent₂, ?_⟩
  rw [Host.solidLines_hosted hb₁, Host.solidLines_hosted hb₂]

/-! ### A file that is upgraded -/

/-- A disk with a file and room for its backups. -/
def roomyDisk (f : File) : Disk :=
  ⟨[(.of ["kept".toText], .directory Mode.newDirectory), (.of ["t.gradle".toText], .file f)], []⟩

/-- Someone who carries the backups away when told of a change. -/
def carryAway : Option (Path → World → World × Except Text Unit) :=
  some fun path w =>
    match w.disk.fileAt path with
    | .ok f => ({ w with disk := roomyDisk f }, .ok ())
    | .error _ => (w, .ok ())

/-- A text with a block whose header shares its line with a declaration. -/
def sharingText : Text :=
  "dependencies \x7b compile 'a'\n\x7d\n".toText

/-- The file with the text. -/
def sharingFile : File := ⟨Encoding.utf8.bytes sharingText, Mode.newFile⟩

/-- A world with the file. -/
def sharingWorld : World where
  disk := roomyDisk sharingFile
  clock := ⟨⟨2024, 1, 2, 3, 4, 5, 6⟩, []⟩

theorem fills_legacy : Fills legacy := by
  have h : ∀ key ∈ keys, legacy.get? key = some (valueOf legacy key) ∧ valueOf legacy key ≠ [] ∧
      (valueOf legacy key).all isVersionChar = true := by decide +kernel
  exact fun key hkey => ⟨_, h key hkey⟩

theorem fileAt_roomyDisk {f : File} (h : f.mode.grants .read = true) :
    (roomyDisk f).fileAt templatePath = .ok f :=
  Disk.fileAt_eq_ok_iff.2 ⟨["t.gradle".toText],
    Disk.locate_eq_ok_iff.2 ⟨by decide, by decide +kernel, fun _ => rfl, rfl⟩, rfl, h⟩

theorem carryAway_leavesAlone : World.LeavesAlone carryAway templatePath := by
  intro tell htell w f hf
  obtain ⟨-, -, -, hgrants⟩ := Disk.fileAt_eq_ok_iff.1 hf
  cases htell
  dsimp only
  rw [hf]
  exact fileAt_roomyDisk hgrants

/-- Those who work on the world. -/
def carriers : Services World :=
  World.servicesTelling templateBackups [] carryAway

theorem fileAt_sharingWorld : sharingWorld.disk.fileAt templatePath = .ok sharingFile :=
  fileAt_roomyDisk (by decide)

theorem sharingWorld_unfailing : carriers.Unfailing templatePath sharingWorld :=
  World.unfailing_of_hasRoom fileAt_sharingWorld (by decide) (by decide +kernel)

/-- The world with the text patched, and the backup carried away. -/
def sharedWorld : World :=
  (announce carriers templatePath (carriers.write templatePath (patchedText modern sharingText 13)
    (carriers.snapshot templatePath sharingWorld).1).1).1

theorem decode_sharingText : Encoding.decode (Encoding.utf8.bytes sharingText) = some sharingText :=
  Encoding.decode_bytes (Encoding.writes_toText _)

theorem return_not_mem_sharingText : .char '\r' ∉ sharingText := by decide +kernel

theorem unmarked_sharingText : Unmarked sharingText := by
  unfold Unmarked
  decide +kernel

/-- The first run. -/
theorem exists_run_sharingWorld :
    ∃ r, run carriers templateJob true templatePath sharingWorld = (sharedWorld, .ok r) ∧
      r.isSuccess = true := by
  have htext : (Document.ofContent sharingText).text = sharingText :=
    Document.withLineFeeds_of_not_mem return_not_mem_sharingText
  have hread : carriers.read templatePath sharingWorld =
      .ok (.ok (Document.ofContent sharingText)) :=
    Document.read_eq_ok_iff.2 ⟨_, _, fileAt_sharingWorld, decode_sharingText, rfl⟩
  have hbalance : balance sharingText = .ok () := eq_ok_of_toOption (by decide +kernel)
  have hbrace : blockBrace? sharingText "dependencies".toText = some 13 := by decide +kernel
  have htidy : Tidy sharingText 13 := ⟨by decide +kernel, by decide +kernel⟩
  obtain ⟨plan, hplan, -, houtcome⟩ := exists_plan fills_modern hbalance unmarked_sharingText
  rw [hbrace] at houtcome
  dsimp only at houtcome
  rw [settle_patchedText fills_modern hbalance unmarked_sharingText hbrace htidy] at houtcome
  have hreal : templateJob.dryRun = false := rfl
  have hfragments : templateJob.fragments = fragmentSet := rfl
  have hwritable : plan.IsWritable := Plan.isWritable_of_fills hfragments fills_modern
    (Encoding.writes_of_decode decode_sharingText) hplan
  obtain ⟨u, r, hrun, hout, hwrite⟩ := run_of_some hreal hread (by rw [htext]; exact hplan) houtcome
    hwritable sharingWorld_unfailing
  rw [Document.crlf_ofContent return_not_mem_sharingText] at hwrite
  replace hwrite : carriers.write templatePath (patchedText modern sharingText 13)
      (carriers.snapshot templatePath sharingWorld).1 = (u, .ok (.ok ())) := hwrite
  refine ⟨r, ?_, Report.isSuccess_of_patched hout⟩
  rw [hrun]
  unfold sharedWorld
  rw [hwrite]

theorem sharedWorld_unfailing : carriers.Unfailing templatePath sharedWorld := by
  obtain ⟨f, hf⟩ : ∃ f, sharedWorld.disk.fileAt templatePath = .ok f := by
    have hok : (sharedWorld.disk.fileAt templatePath).isOk = true := by decide +kernel
    cases hfile : sharedWorld.disk.fileAt templatePath with
    | ok f => exact ⟨f, rfl⟩
    | error e =>
      rw [hfile] at hok
      cases hok
  exact World.unfailing_of_hasRoom hf (by decide) (by decide +kernel)

/-- The file is patched with one version and upgraded to another. -/
theorem run_upgrades_sharingWorld :
    templateJob.fragments = fragmentSet ∧ templateJob.dryRun = false ∧
      (∀ V ∈ [modern, legacy], Fills V) ∧
      sharingWorld.disk.fileAt templatePath = .ok sharingFile ∧
      Encoding.decode sharingFile.content = some sharingText ∧ .char '\r' ∉ sharingText ∧
      Unmarked sharingText ∧ World.LeavesAlone carryAway templatePath ∧
      carriers.UnfailingThrough templateJob templatePath [modern, legacy] sharingWorld ∧
      ∃ r, run carriers templateJob true templatePath sharingWorld = (sharedWorld, .ok r) ∧
        r.isSuccess = true ∧
        ∃ (w₁ : World) (reports : List Report) (f₁ : File) (t₁ : Text),
          upgrades carriers templateJob templatePath [legacy] sharedWorld =
            (w₁, reports.map .ok) ∧ (∀ r ∈ reports, r.isSuccess = true) ∧
          w₁.disk.fileAt templatePath = .ok f₁ ∧ Encoding.decode f₁.content = some t₁ ∧
          ∃ w₂ r₂ f₂ t₂, run carriers { templateJob with versions := legacy } true templatePath
              sharingWorld = (w₂, .ok r₂) ∧ r₂.isSuccess = true ∧
            w₂.disk.fileAt templatePath = .ok f₂ ∧ Encoding.decode f₂.content = some t₂ ∧
            solidLines t₁ = solidLines t₂ := by
  have hversions : ∀ V ∈ [modern, legacy], Fills V := by
    simp [fills_modern, fills_legacy]
  have hcontent : Encoding.decode sharingFile.content = some sharingText := decode_sharingText
  obtain ⟨r, hrun, hsuccess⟩ := exists_run_sharingWorld
  have hunfailing :
      carriers.UnfailingThrough templateJob templatePath [modern, legacy] sharingWorld := by
    refine ⟨sharingWorld_unfailing, ?_, trivial⟩
    show carriers.Unfailing templatePath (run carriers templateJob true templatePath sharingWorld).1
    rw [hrun]
    dsimp only
    exact sharedWorld_unfailing
  exact ⟨rfl, rfl, hversions, fileAt_sharingWorld, hcontent, return_not_mem_sharingText,
    unmarked_sharingText, carryAway_leavesAlone, hunfailing, r, hrun, hsuccess,
    run_upgrades rfl rfl hversions fileAt_sharingWorld hcontent return_not_mem_sharingText
      unmarked_sharingText carryAway_leavesAlone hunfailing hrun hsuccess⟩

end Defaults

end Graft
