import Graft.Proofs.Run.FirstPatch

/-!
# Dry runs

A dry run makes the plan that the run would make, and stops where the run would write. It asks for
no backup and is refused nothing, so it is the plan alone that decides how it ends
(`perform_of_dry`). So it is with the run itself if no call that it makes is refused
(`perform_of_unfailing`), and the two differ in one thing: a new text is written by the one and told
of by the other.

> `run_rehearsed`: if the new text can be written, a dry run leaves everything as it was, and its
> report foretells that of the run.

That the new text can be written is for the run to find out, as nothing is encoded in a dry run. It
is needed: a text that holds half of a surrogate pair is announced by the dry run, and the run fails
(`foretells_iff`). The half can only come from a fragment or from a version value, since what is
read from a file can be written. The path of the file must be one that can be written as well, since
the key of a backup is made from its bytes (`exists_run_not_rehearsed`).
-/

namespace Graft

open Run

/-! ## Reports that follow a plan -/

/-- How a run ends that is refused nothing, where `changed` is its end if there is a new text. -/
def Plan.ending (plan : Plan) (changed : Outcome) : Outcome :=
  match plan.outcome with
  | .error failure => .failed failure
  | .ok none => .upToDate
  | .ok (some _) => changed

/-- Whether a plan has a new text. -/
def Plan.isNew (plan : Plan) : Bool :=
  match plan.outcome with
  | .ok (some _) => true
  | _ => false

/-- A report tells of a plan what was found and done, and how it came out. A new text is told by the
outcome `changed`, and by `more` actions. -/
structure Report.Follows (r : Report) (plan : Plan) (changed : Outcome) (more : List Action) :
    Prop where
  outcome : r.outcome = plan.ending changed
  states : r.states = plan.states
  actions : r.actions = plan.actions ++ if plan.isNew then more else []

/-- What one report says of another: they agree on success, on the kind of the failure and on what
was found, and the actions are the same, except that this one adds that nothing was written where
the other one tells of a change. -/
structure Report.Foretells (dry real : Report) : Prop where
  success : dry.isSuccess = real.isSuccess
  kind : dry.kind = real.kind
  states : dry.states = real.states
  actions : dry.actions = real.actions ++ if real.isChanged then [.nothingWritten] else []

/-- A report without a plan to follow foretells itself, unless it tells of a change. -/
theorem Report.foretells_self {r : Report} (h : r.isChanged = false) : r.Foretells r where
  success := rfl
  kind := rfl
  states := rfl
  actions := by rw [h, if_neg Bool.false_ne_true, List.append_nil]

/-- Following one plan, the report of a dry run foretells that of a run. -/
theorem Report.Follows.foretells {dry real : Report} {plan : Plan}
    (hdry : dry.Follows plan .wouldPatch [.nothingWritten]) (hreal : real.Follows plan .patched []) :
    dry.Foretells real := by
  have hkind : dry.kind = real.kind := by
    rw [Report.kind, Report.kind, hdry.outcome, hreal.outcome]
    rcases houtcome : plan.outcome with failure | _ | text <;> simp [Plan.ending, houtcome]
  have hchanged : real.isChanged = plan.isNew := by
    rw [Report.isChanged, hreal.outcome]
    rcases houtcome : plan.outcome with failure | _ | text <;>
      simp [Plan.ending, Plan.isNew, houtcome]
  exact {
    success := by rw [Report.isSuccess, Report.isSuccess, hkind]
    kind := hkind
    states := hdry.states.trans hreal.states.symm
    actions := by
      rw [hdry.actions, hreal.actions, hchanged, ite_self, List.append_nil] }

/-! ## Carrying out a plan -/

section Perform

variable {σ : Type} {services : Services σ} {job : Job} {path : Path} {plan : Plan} {s : σ}

/-- A dry run follows its plan, and leaves the state as it was. -/
theorem perform_of_dry (services : Services σ) (hdry : job.dryRun = true) (path : Path)
    (crlf : Bool) (plan : Plan) (s : σ) :
    ∃ r, perform services job path crlf plan s = (s, .ok r) ∧
      r.Follows plan .wouldPatch [.nothingWritten] := by
  have hsecure : secure services job plan path s = (s, .ok (.ok ([], []))) := by
    rw [secure, if_pos (by rw [hdry, Bool.true_or])]
  unfold perform
  rw [hsecure]
  dsimp only
  split
  · next failure houtcome =>
    exact ⟨_, rfl, by simp [Plan.ending, houtcome], rfl, by simp [Plan.isNew, houtcome]⟩
  · next houtcome =>
    exact ⟨_, rfl, by simp [Plan.ending, houtcome], rfl, by simp [Plan.isNew, houtcome]⟩
  · next text houtcome =>
    rw [deliver, if_pos hdry]
    exact ⟨_, rfl, by simp [Plan.ending, houtcome], rfl, by simp [Plan.isNew, houtcome]⟩

/-- Once a backup is taken or not asked for, a run follows its plan if what it writes is written. -/
theorem perform_of_secured {t : σ} {cover : Cover} {crlf : Bool} (hreal : job.dryRun = false)
    (hsecure : secure services job plan path s = (t, .ok (.ok cover)))
    (hwilling : ∀ text, plan.outcome = .ok (some text) →
      (services.write path (Document.serialize crlf text) t).2 = .ok (.ok ())) :
    ∃ u r, perform services job path crlf plan s = (u, .ok r) ∧ r.Follows plan .patched [] := by
  unfold perform
  rw [hsecure]
  dsimp only
  split
  · next failure houtcome =>
    exact ⟨_, _, rfl, by simp [Plan.ending, houtcome], rfl, by simp⟩
  · next houtcome =>
    exact ⟨_, _, rfl, by simp [Plan.ending, houtcome], rfl, by simp⟩
  · next text houtcome =>
    have hwritten := hwilling text houtcome
    rw [deliver, if_neg (by simp [hreal])]
    split
    · next u b hwrite =>
      rw [hwrite] at hwritten
      cases hwritten
    · next u reason hwrite =>
      rw [hwrite] at hwritten
      cases hwritten
    · exact ⟨_, _, rfl, by simp [Plan.ending, houtcome], rfl, by simp⟩

/-- A run that is refused nothing follows its plan. -/
theorem perform_of_unfailing (hreal : job.dryRun = false)
    (hidle : plan.removes = false → plan.adds = false → plan.outcome = .ok none)
    (hwritable : plan.IsWritable) (hunfailing : services.Unfailing path s) (crlf : Bool) :
    ∃ t r, perform services job path crlf plan s = (t, .ok r) ∧ r.Follows plan .patched [] := by
  cases hneed : plan.removes || plan.adds with
  | false =>
    have hsecure : secure services job plan path s = (s, .ok (.ok ([], []))) := by
      rw [secure, if_pos (by rw [hneed, Bool.not_false, Bool.or_true])]
    obtain ⟨hremoves, hadds⟩ := Bool.or_eq_false_iff.1 hneed
    refine perform_of_secured hreal hsecure fun text htext => ?_
    rw [hidle hremoves hadds] at htext
    cases htext
  | true =>
    obtain ⟨t, backup, hsnapshot, hwilling⟩ := hunfailing
    have hsecure : secure services job plan path s = (t, .ok (.ok ([backup], []))) := by
      rw [secure, if_neg (by simp [hreal, hneed]), hsnapshot]
    exact perform_of_secured hreal hsecure fun text htext =>
      hwilling _ (hwritable.serialize crlf htext)

end Perform

/-! ## Runs -/

variable {σ : Type} {services : Services σ}

/-- A dry run leaves the state as it was, whatever comes of it. -/
theorem run_of_dry {job : Job} {path : Path} {s : σ} (hdry : job.dryRun = true) (go : Bool) :
    (run services job go path s).1 = s := by
  rcases run_cases services job go path s with
    ⟨-, hrun⟩ | ⟨result, hrun, -⟩ | ⟨doc, plan, hread, hplan, rfl, -⟩
  · rw [hrun]
  · rw [hrun]
  · obtain ⟨r, hperformed, -⟩ := perform_of_dry services hdry path doc.crlf plan s
    rw [run_eq_perform hread hplan, hperformed]

/-- **A dry run predicts the real run.** If no call that a run makes is refused once it has read the
document, and the new text of the plan can be written, a dry run from the same state leaves that
state as it was and foretells the report of the run, or both break down alike. -/
theorem run_rehearsed (job : Job) (go : Bool) {path : Path} {s : σ}
    (hunfailing : ∀ doc, services.read path s = .ok (.ok doc) → services.Unfailing path s)
    (hwritable : ∀ doc plan, services.read path s = .ok (.ok doc) →
      Plan.ofText job.fragments job.versions doc.text = .ok plan → plan.IsWritable) :
    ∃ t dry real,
      run services { job with dryRun := true } go path s = (s, dry) ∧
      run services { job with dryRun := false } go path s = (t, real) ∧
      match dry, real with
      | .ok dry, .ok real => dry.Foretells real
      | .error b, .error b' => b = b'
      | _, _ => False := by
  cases go with
  | false => exact ⟨s, _, _, rfl, rfl, Report.foretells_self rfl⟩
  | true =>
    unfold run
    rw [if_pos rfl, if_pos rfl]
    cases hread : services.read path s with
    | error b => exact ⟨s, _, _, rfl, rfl, rfl⟩
    | ok answer =>
      cases answer with
      | error e => exact ⟨s, _, _, rfl, rfl, Report.foretells_self rfl⟩
      | ok doc =>
        dsimp only
        cases hplan : Plan.ofText job.fragments job.versions doc.text with
        | error failure => exact ⟨s, _, _, rfl, rfl, Report.foretells_self rfl⟩
        | ok plan =>
          dsimp only
          have hdry : { job with dryRun := true }.dryRun = true := rfl
          have hreal : { job with dryRun := false }.dryRun = false := rfl
          obtain ⟨dry, hrehearsed, hfollows⟩ :=
            perform_of_dry services hdry path doc.crlf plan s
          obtain ⟨t, real, hperformed, hfollows'⟩ := perform_of_unfailing hreal
            (Plan.outcome_of_idle hplan) (hwritable doc plan hread hplan) (hunfailing doc hread)
            doc.crlf
          exact ⟨t, _, _, hrehearsed, hperformed, hfollows.foretells hfollows'⟩

/-- Nor is there half of a surrogate pair in what comes of a text that can be written, if there is
none in the fragments and the values. -/
theorem Plan.isWritable_of_foreign {job : Job} {plan : Plan} {t : Text}
    (hjob : ∀ f ∈ job.fragments.fragments, ∀ half, Foreign (.lone half) f job.versions)
    (ht : Encoding.utf8.writes t = true)
    (hplan : Plan.ofText job.fragments job.versions t = .ok plan) : plan.IsWritable := by
  intro text htext
  refine Plan.writes_outcome (fun f hf rendered hr => ?_) ht hplan htext
  exact Encoding.writes_utf8_iff.2 fun half => (hjob f hf half).not_mem_render (by simp) hr

theorem demandingWorld_unfailing :
    (World.servicesTelling demandingBackups [] none).Unfailing demandingPath demandingWorld :=
  World.unfailing_of_hasRoom fileAt_demandingWorld (by decide) (by decide +kernel)

/-- A dry run says that a fragment would be put at the end of a file, and so does the run. -/
theorem run_rehearsed_demandingWorld :
    (∀ doc, (World.servicesTelling demandingBackups [] none).read demandingPath demandingWorld =
        .ok (.ok doc) →
      (World.servicesTelling demandingBackups [] none).Unfailing demandingPath demandingWorld) ∧
    (∀ doc plan, (World.servicesTelling demandingBackups [] none).read demandingPath
        demandingWorld = .ok (.ok doc) →
      Plan.ofText closingJob.fragments closingJob.versions doc.text = .ok plan →
      plan.IsWritable) ∧
    ∃ w dry real,
      run (World.servicesTelling demandingBackups [] none) { closingJob with dryRun := true } true
        demandingPath demandingWorld = (demandingWorld, .ok dry) ∧
      run (World.servicesTelling demandingBackups [] none) { closingJob with dryRun := false } true
        demandingPath demandingWorld = (w, .ok real) ∧
      dry.Foretells real ∧ dry.actions = [.added [.char '#'] .endOfFile, .nothingWritten] := by
  have hwritable : ∀ doc plan, (World.servicesTelling demandingBackups [] none).read demandingPath
      demandingWorld = .ok (.ok doc) →
      Plan.ofText closingJob.fragments closingJob.versions doc.text = .ok plan →
      plan.IsWritable := by
    intro doc plan hread hplan
    refine Plan.isWritable_of_foreign ?_ ?_ hplan
    · intro f hf half
      rw [List.mem_singleton.1 hf]
      exact ⟨by simp [closing], Encoding.writes_utf8_iff.1 (Encoding.writes_toText _) half,
        fun e he => by cases he⟩
    · have hdisk : Document.read demandingWorld.disk demandingPath = .ok (.ok doc) := hread
      exact Document.writes_of_read hdisk
  have hactions : (run (World.servicesTelling demandingBackups [] none)
      { closingJob with dryRun := true } true demandingPath
      demandingWorld).2.toOption.map Report.actions =
        some [.added [.char '#'] .endOfFile, .nothingWritten] := by decide +kernel
  obtain ⟨w, dry, real, hdry, hreal, hmatch⟩ :=
    run_rehearsed closingJob true (fun _ _ => demandingWorld_unfailing) hwritable
  rw [hdry] at hactions
  cases dry with
  | error b => cases hactions
  | ok dry =>
    cases real with
    | error b => exact hmatch.elim
    | ok real =>
      exact ⟨fun _ _ => demandingWorld_unfailing, hwritable, w, dry, real, hdry, hreal, hmatch,
        Option.some.inj hactions⟩

/-! ### A text that cannot be written -/

section World

variable {job : Job} {path : Path} {backups : Backups} {token : Text} {w w' v : World}
  {notify : Option (Path → World → World × Except Text Unit)} {doc : Document} {plan : Plan}

/-- Where a run over files succeeds, its new text can be written, as it was. -/
theorem isWritable_of_success {r : Report} (hreal : job.dryRun = false)
    (hread : (World.servicesTelling backups token notify).read path w = .ok (.ok doc))
    (hplan : Plan.ofText job.fragments job.versions doc.text = .ok plan)
    (hrun : run (World.servicesTelling backups token notify) job true path w = (w', .ok r))
    (hsuccess : r.isSuccess = true) : plan.IsWritable := by
  have hcourse : Course (World.servicesTelling backups token notify) job path doc.crlf plan w
      (w', .ok r) := by
    rw [← hrun, run_eq_perform hread hplan]
    exact perform_course (Plan.outcome_of_idle hplan)
  intro text htext
  obtain ⟨f, content, hf, hcontent, rfl⟩ := Document.read_eq_ok_iff.1 hread
  obtain ⟨-, ⟨-, -, hremoves, hadds⟩ | ⟨-, hnone, -⟩ | ⟨-, answer, new, u, v, hsnapshot, hnew,
    hwrite, -⟩⟩ := hcourse.of_success hreal hsuccess
  · rw [Plan.outcome_of_idle hplan hremoves hadds] at htext
    cases htext
  · rw [hnone] at htext
    cases htext
  · rw [hnew] at htext
    cases htext
    have hwrites := (World.fileAt_write (World.fileAt_of_snapshot hf hsnapshot) hwrite).1
    rwa [Document.writes_serialize] at hwrites

/-- So where no call is refused, a dry run foretells the run exactly if the new text can be
written. -/
theorem foretells_iff {dry real : Report}
    (hread : (World.servicesTelling backups token notify).read path w = .ok (.ok doc))
    (hplan : Plan.ofText job.fragments job.versions doc.text = .ok plan)
    (hunfailing : (World.servicesTelling backups token notify).Unfailing path w)
    (hdry : run (World.servicesTelling backups token notify) { job with dryRun := true } true path w
      = (v, .ok dry))
    (hreal : run (World.servicesTelling backups token notify) { job with dryRun := false } true path
      w = (w', .ok real)) : dry.Foretells real ↔ plan.IsWritable := by
  constructor
  · intro hforetells text htext
    -- the dry run succeeds as there is a new text, and so does the run
    have hplan' : Plan.ofText { job with dryRun := true }.fragments
        { job with dryRun := true }.versions doc.text = .ok plan := hplan
    have htrue : { job with dryRun := true }.dryRun = true := rfl
    obtain ⟨r, hperformed, hfollows⟩ :=
      perform_of_dry (World.servicesTelling backups token notify) htrue path doc.crlf plan w
    rw [run_eq_perform hread hplan', hperformed] at hdry
    cases hdry
    have hout := hfollows.outcome
    rw [Plan.ending, htext] at hout
    have hsuccess : real.isSuccess = true := by
      rw [← hforetells.success, Report.isSuccess, Report.kind, hout]
      rfl
    have hplan'' : Plan.ofText { job with dryRun := false }.fragments
        { job with dryRun := false }.versions doc.text = .ok plan := hplan
    exact isWritable_of_success rfl hread hplan'' hreal hsuccess text htext
  · intro hwritable
    obtain ⟨t, dry', real', hdry', hreal', hmatch⟩ :=
      run_rehearsed job true (fun _ _ => hunfailing) fun doc' plan' hread' hplan₁ => by
        rw [hread, Except.ok.injEq, Except.ok.injEq] at hread'
        rw [← hread', hplan, Except.ok.injEq] at hplan₁
        rwa [← hplan₁]
    rw [hdry, Prod.mk.injEq] at hdry'
    rw [hreal, Prod.mk.injEq] at hreal'
    rw [← hdry'.2, ← hreal'.2] at hmatch
    exact hmatch

end World

/-- A fragment with a version in it. -/
def versioned : Fragment where
  marker := [.char '#']
  template := "implementation 'x:y:$v'".toText
  anchor := .endOfFile

/-- To have the fragment in a file, where the version is half of a surrogate pair. -/
def halvedJob : Job where
  fragments := ⟨[versioned], Fragment.checkAll_eq_ok (by decide +kernel)⟩
  versions := ⟨"t".toText, [("v".toText, [.lone ⟨0, by decide⟩])]⟩

/-- The path of a file whose name is not in UTF-8. -/
def halvedPath : Path := .ofText [.lone ⟨0x4ff, by decide⟩]

/-- A world in which the file is there. -/
def halvedWorld : World where
  disk := ⟨[(.of [[.lone ⟨0x4ff, by decide⟩]], .file ⟨.empty, Mode.newFile⟩)], []⟩
  clock := demandingWorld.clock

/-- What could not be encoded, if a run broke down over it. -/
def unencodable? : Except Breakdown Report → Option Unencodable
  | .error (.os (.unencodable e)) => some e
  | _ => none

theorem eq_error_of_unencodable? {result : Except Breakdown Report} {e : Unencodable}
    (h : unencodable? result = some e) : result = .error (.os (.unencodable e)) := by
  unfold unencodable? at h
  split at h
  · cases h
    rfl
  · cases h

/-- Where a text cannot be written, a dry run foretells nothing. It says that the fragment would be
put in, and nothing is refused but to write the new text, so that the run fails; and a run over a
file whose path cannot be written breaks down over the key of the backup, which a dry run does
without. -/
theorem exists_run_not_rehearsed :
    ((World.servicesTelling demandingBackups [] none).Unfailing demandingPath demandingWorld ∧
      ∃ w dry real,
        run (World.servicesTelling demandingBackups [] none) { halvedJob with dryRun := true } true
          demandingPath demandingWorld = (demandingWorld, .ok dry) ∧
        run (World.servicesTelling demandingBackups [] none) { halvedJob with dryRun := false } true
          demandingPath demandingWorld = (w, .ok real) ∧
        dry.isSuccess = true ∧ real.isSuccess = false ∧ real.kind = .ioFailure ∧
        ¬ dry.Foretells real) ∧
    ∃ dry e,
      run (World.servicesTelling demandingBackups [] none) { closingJob with dryRun := true } true
        halvedPath halvedWorld = (halvedWorld, .ok dry) ∧
      (run (World.servicesTelling demandingBackups [] none) { closingJob with dryRun := false } true
        halvedPath halvedWorld).2 = .error (.os (.unencodable e)) ∧
      dry.isSuccess = true := by
  have hdry : (run (World.servicesTelling demandingBackups [] none)
      { halvedJob with dryRun := true } true demandingPath
      demandingWorld).2.toOption.map Report.kind = some .none := by decide +kernel
  have hreal : (run (World.servicesTelling demandingBackups [] none)
      { halvedJob with dryRun := false } true demandingPath
      demandingWorld).2.toOption.map Report.kind = some .ioFailure := by decide +kernel
  have hnamed : (run (World.servicesTelling demandingBackups [] none)
      { closingJob with dryRun := true } true halvedPath
      halvedWorld).2.toOption.map Report.kind = some .none := by decide +kernel
  obtain ⟨v, dry, hdry, hnone⟩ := exists_report hdry
  obtain ⟨w, real, hreal, hkind⟩ := exists_report hreal
  obtain ⟨v', dry', hdry', hnone'⟩ := exists_report hnamed
  obtain rfl : v = demandingWorld := (congrArg Prod.fst hdry).symm.trans (run_of_dry rfl true)
  obtain rfl : v' = halvedWorld := (congrArg Prod.fst hdry').symm.trans (run_of_dry rfl true)
  have hbroken : (unencodable? (run (World.servicesTelling demandingBackups [] none)
      { closingJob with dryRun := false } true halvedPath halvedWorld).2).isSome = true := by
    decide +kernel
  obtain ⟨e, he⟩ := Option.isSome_iff_exists.1 hbroken
  refine ⟨⟨demandingWorld_unfailing, w, dry, real, hdry, hreal, ?_, ?_, hkind, ?_⟩, dry', e, hdry',
    eq_error_of_unencodable? he, ?_⟩
  · rw [Report.isSuccess, hnone]
    rfl
  · rw [Report.isSuccess, hkind]
    rfl
  · intro hforetells
    rw [hforetells.kind, hkind] at hnone
    cases hnone
  · rw [Report.isSuccess, hnone']
    rfl

end Graft
