import Graft.Config
import Graft.Fragment.Defaults
import Graft.Payload
import Graft.Run.World

/-!
# Editor

The occasions on which an editor has a template patched: when it starts, when the user asks for it,
and before a build. An occasion decides whether there is reason to run and with what; the run itself
knows neither platforms nor sessions. A file that is missing is reported with the steps that set it
up.
-/

namespace Graft

/-- What a run needs could not be made out. -/
inductive InputError where
  /-- The file of fragments gives none. -/
  | payload (error : PayloadError)
  /-- There is no version set of the name. -/
  | toolchain (error : UnknownToolchain)
  /-- Not one backup is to be kept. -/
  | retention
  /-- There is no backup policy of the name. -/
  | policy (name : Text)
  /-- Something broke down. -/
  | broken (cause : Breakdown)

namespace InputError

/-- The error in words. -/
def message : InputError → Text
  | payload e => e.message
  | toolchain e => e.message
  | retention => Backups.noRetention
  | policy name => BackupPolicy.unknown name
  | broken b => b.message

/-- The breakdown that is not told as an error, if there is one. -/
def breakdown? : InputError → Option Breakdown
  | broken b => if b.isReported then none else some b
  | _ => none

end InputError

/-- Whether the one check at the start of a session was made. -/
structure Session where
  /-- Whether it was made. -/
  checked : Bool := false
  deriving DecidableEq, Repr

namespace Session

/-- Makes the check; the answer tells whether it was due. -/
def visit (s : Session) : Bool × Session :=
  (!s.checked, ⟨true⟩)

/-- Starts a new session. -/
def renew (_ : Session) : Session :=
  ⟨false⟩

end Session

namespace Editor

/-- How to set up the file that is to be patched. -/
def setupSteps : Text :=
  "Android Build Setup Required!\n".toText ++
  "1. Go to: Edit -> Project Settings -> Player -> Android -> Publishing Settings\n".toText ++
  "2. Check the box: 'Custom Main Gradle Template'\n".toText ++
  "3. Then try building again or run 'python -m gradlepatch patch' ".toText ++
  "(GUI: 'Fix Android Dependencies').".toText

/-- Whether a platform is the one that templates are for. -/
def isTargetPlatform (platform : Option Text) : Bool :=
  Text.lower (Text.trim (platform.getD [])) == "android".toText

/-- The JSON value in a file of fragments. -/
def readPayload (d : Disk) (path : Path) : Except InputError Json :=
  let unreadable (reason : Text) : Except InputError Json :=
    .error (.payload (.unreadable path.toText reason))
  match d.fileAt path with
  | .error e => unreadable e.message
  | .ok f =>
    match (Encoding.decode f.content).map Json.read with
    | none => unreadable Encoding.undecodable
    | some (.ok v) => .ok v
    | some (.error .tooDeep) => .error (.broken .tooDeep)
    | some (.error .malformed) => unreadable "not a JSON text".toText
    | some (.error (.tooManyDigits _)) => unreadable "a number of too many digits".toText

/-- The fragments and the version sets in a file. -/
def loadDefinitions (d : Disk) (path : Path) :
    Except InputError (FragmentSet × Table VersionSet) := do
  let payload ← readPayload d path
  let fragments ← (Payload.fragments payload).mapError .payload
  let sets ← (Payload.versionSets payload).mapError .payload
  return (fragments, sets)

/-- The fragments that a configuration asks for, and the version sets to choose from: the built-in
ones, or those of a file. A file without version sets leaves the built-in ones to choose from. -/
def definitions (d : Disk) (c : Config) : Except InputError (FragmentSet × Table VersionSet) :=
  match c.fragmentsFile.bind Json.given? with
  | none => .ok (Defaults.fragmentSet, Defaults.versionSets)
  | some file => do
    let (fragments, sets) ← loadDefinitions d (← (Config.pathOf file).mapError .broken)
    return (fragments, if sets.isEmpty then Defaults.versionSets else sets)

/-- The fragments and the version set for a run. A toolchain asked for precedes that of the
configuration. -/
def inputs (d : Disk) (c : Config) (toolchain : Option Text) (overrides : Table Text) :
    Except InputError (FragmentSet × VersionSet) := do
  let (fragments, sets) ← definitions d c
  let name := match toolchain with
    | some (h :: t) => h :: t
    | _ => c.toolchain
  let versions ← (VersionSet.select sets (some name)).mapError .toolchain
  return (fragments, versions.overriddenBy overrides)

/-- The backups that a configuration asks for. -/
def backupsOf (env : Environment) (c : Config) : Except InputError Backups := do
  let directory ← (c.backupsPath env).mapError .broken
  match ← (Backups.make? env directory c.retention).mapError .broken with
  | some backups => return backups
  | none => .error .retention

/-- The job and the backups that a configuration asks for. -/
def prepare (env : Environment) (d : Disk) (c : Config) (toolchain : Option Text)
    (overrides : Table Text) (dryRun : Bool) : Except InputError (Job × Backups) := do
  let (fragments, versions) ← inputs d c toolchain overrides
  let backups ← backupsOf env c
  match BackupPolicy.ofName? c.policy with
  | none => .error (.policy c.policy)
  | some policy => return ({ fragments, versions, policy, dryRun }, backups)

/-- What a hook is asked to do. -/
structure Request where
  /-- The file to patch. -/
  path : Path
  /-- The platform, if it is known. -/
  platform : Option Text := none
  /-- Whether the platform matters. -/
  checkPlatform : Bool := true
  /-- What the user has settled. -/
  config : Config := {}
  /-- The toolchain that was asked for. -/
  toolchain : Option Text := none
  /-- Version values to use in place of those of the set. -/
  overrides : Table Text := []
  /-- Whether nothing is to be written. -/
  dryRun : Bool := false

/-- The report with the steps that set up the file, if it is missing. -/
def withSetupSteps (r : Report) : Report :=
  if r.kind = .fileMissing then { r with hint := some setupSteps } else r

/-- Patches the file of a request if the platform is right or does not matter. -/
def patchOnRequest (env : Environment) (token : Text) (request : Request) (w : World) :
    World × Except Breakdown Report :=
  let go := isTargetPlatform request.platform || !request.checkPlatform
  match prepare env w.disk request.config request.toolchain request.overrides request.dryRun with
  | .error e =>
    match e.breakdown? with
    | some b => (w, .error b)
    | none =>
      (w, .ok (if go then .ofUnprepared request.path e.message else .ofSkipped request.path))
  | .ok (job, backups) =>
    let (w, report) := run (World.services backups token) job go request.path w
    (w, withSetupSteps <$> report)

/-- Patches the file of a request on the first call of a session, and does nothing afterwards. -/
def patchAtStart (env : Environment) (token : Text) (session : Session) (request : Request)
    (w : World) : Session × World × Except Breakdown (Option Report) :=
  match session.visit with
  | (false, session) => (session, w, .ok none)
  | (true, session) =>
    let (w, report) := patchOnRequest env token request w
    (session, w, some <$> report)

/-- Whether a build may go on, and the report on the file that was patched for it. -/
inductive BuildDecision where
  /-- The build may go on. -/
  | proceed (report : Report)
  /-- The build is blocked. -/
  | blocked (report : Report)

/-- Patches the file of a request before a build. A failure blocks the build if it is to. -/
def patchForBuild (env : Environment) (token : Text) (haltOnFailure : Bool) (request : Request)
    (w : World) : World × Except Breakdown BuildDecision :=
  let (w, report) := patchOnRequest env token request w
  (w, report.map fun r => if haltOnFailure && !r.isSuccess then .blocked r else .proceed r)

end Editor

end Graft
