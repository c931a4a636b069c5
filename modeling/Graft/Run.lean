import Graft.Run.Report

/-!
# Runs

A run brings one file up to date, or leaves it exactly as it was. It reads the file, makes a plan
(`Plan`), takes a backup if the plan changes the text, writes the new text if it is valid, and
tells whoever wants to know. These four calls are its only effects; they are given to it as
`Services` over a state of any kind, so that what a run does is a function of what they answer.

The backup comes before everything else that the plan does. One that cannot be taken ends the run if
text is going to be removed or if the policy is strict; otherwise it is a warning.
-/

namespace Graft

/-- What to do when there is no backup of a file to which text is only added. -/
inductive BackupPolicy where
  /-- Leave the file alone. -/
  | strict
  /-- Go on without. -/
  | bestEffort
  deriving DecidableEq, Repr

namespace BackupPolicy

/-- The name of a policy. -/
def name : BackupPolicy → Text
  | strict => "strict".toText
  | bestEffort => "best_effort".toText

/-- The policy of a name. -/
def ofName? (t : Text) : Option BackupPolicy :=
  if t = strict.name then some strict
  else if t = bestEffort.name then some bestEffort
  else none

/-- The refusal of a name. -/
def unknown (t : Text) : Text :=
  "unknown backup policy: ".toText ++ Text.quoted t

end BackupPolicy

/-- What a run is to do. -/
structure Job where
  /-- The fragments that the file must hold. -/
  fragments : FragmentSet
  /-- The values for their templates. -/
  versions : VersionSet
  /-- What to do without a backup. -/
  policy : BackupPolicy := .strict
  /-- Whether nothing is to be written. -/
  dryRun : Bool := false

/-- What a run asks of the outside, over a state of the outside. -/
structure Services (σ : Type) where
  /-- The document at a path. -/
  read : Path → σ → Answer ReadError Document
  /-- Takes a backup. -/
  snapshot : Path → σ → σ × Answer BackupError Backup
  /-- Writes the content of a file, or tells why this failed. -/
  write : Path → Text → σ → σ × Answer Text Unit
  /-- Tells that a file was changed. -/
  notify : Option (Path → σ → σ × Except Text Unit) := none

namespace Run

/-- The backups that a run has, and the warnings about those it does not have. -/
abbrev Cover := List Backup × List Warning

/-- Whether a run cannot do without a backup. -/
def needsBackup (job : Job) (plan : Plan) : Bool :=
  plan.removes || job.policy == .strict

/-- Takes a backup if the plan changes the text and the change is meant. -/
def secure {σ : Type} (services : Services σ) (job : Job) (plan : Plan) (path : Path) (s : σ) :
    σ × Answer BackupError Cover :=
  if job.dryRun || !(plan.removes || plan.adds) then (s, .ok (.ok ([], [])))
  else
    match services.snapshot path s with
    | (s, .error b) => (s, .error b)
    | (s, .ok (.ok backup)) => (s, .ok (.ok ([backup], [])))
    | (s, .ok (.error e)) =>
      (s, .ok (if needsBackup job plan then .error e else .ok ([], [.noBackup e])))

/-- Tells that a file was changed; a failure to do so is a warning. -/
def announce {σ : Type} (services : Services σ) (path : Path) (s : σ) : σ × List Warning :=
  match services.notify with
  | none => (s, [])
  | some notify =>
    match notify path s with
    | (s, .ok ()) => (s, [])
    | (s, .error reason) => (s, [.notRefreshed reason])

/-- Writes a new text, and completes the report on it. -/
def deliver {σ : Type} (services : Services σ) (job : Job) (path : Path) (content : Text)
    (report : Outcome → Report) (s : σ) : σ × Except Breakdown Report :=
  if job.dryRun then
    let r := report .wouldPatch
    (s, .ok { r with actions := r.actions ++ [.nothingWritten] })
  else
    match services.write path content s with
    | (s, .error b) => (s, .error b)
    | (s, .ok (.error reason)) => (s, .ok (report (.failed (.unwritten reason))))
    | (s, .ok (.ok ())) =>
      let (s, warnings) := announce services path s
      let r := report .patched
      (s, .ok { r with warnings := r.warnings ++ warnings })

/-- Carries out a plan for a document. -/
def perform {σ : Type} (services : Services σ) (job : Job) (path : Path) (crlf : Bool) (plan : Plan)
    (s : σ) : σ × Except Breakdown Report :=
  let start : Report := {
    path, outcome := .upToDate, fragmentCount := job.fragments.fragments.length
    states := plan.states }
  match secure services job plan path s with
  | (s, .error b) => (s, .error b)
  | (s, .ok (.error e)) => (s, .ok { start with outcome := .failed (.noBackup e) })
  | (s, .ok (.ok (backups, warnings))) =>
    let report (outcome : Outcome) : Report :=
      { start with outcome, actions := plan.actions, warnings, backups }
    match plan.outcome with
    | .error failure => (s, .ok (report (.failed failure)))
    | .ok none => (s, .ok (report .upToDate))
    | .ok (some text) => deliver services job path (Document.serialize crlf text) report s

end Run

open Run in
/-- Brings the file at a path up to date. -/
def run {σ : Type} (services : Services σ) (job : Job) (go : Bool) (path : Path) (s : σ) :
    σ × Except Breakdown Report :=
  if go then
    match services.read path s with
    | .error b => (s, .error b)
    | .ok (.error e) => (s, .ok { path, outcome := .failed (.unread e) })
    | .ok (.ok doc) =>
      match Plan.ofText job.fragments job.versions doc.text with
      | .error failure => (s, .ok { path, outcome := .failed failure })
      | .ok plan => perform services job path doc.crlf plan s
  else (s, .ok (.ofSkipped path))

end Graft
