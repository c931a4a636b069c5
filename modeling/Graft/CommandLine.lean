import Graft.CommandLine.Help
import Graft.Editor
import Graft.Project

/-!
# The command line

What the program prints and with which status it ends, for the words of a command line. Arguments
precede the configuration, which precedes what is built in. A run that fails ends with status 1, a
command line that makes no sense with status 2; one that asks for help is answered with a page of it
(`Help.page`). A breakdown has no reply.
-/

namespace Graft

namespace CommandLine

/-- The name of the program. -/
def applicationName : Text := "GradlePatch".toText

/-- The version of the program. -/
def version : Text := "0.1.0".toText

/-- How the program ends. -/
inductive Reply where
  /-- It ends with a status, after printing some text and reporting some errors. -/
  | ended (status : Nat) (out err : Text)
  /-- It makes no sense of its arguments. -/
  | misused
  deriving DecidableEq, Repr

namespace Reply

/-- The end after some lines. -/
def printed (status : Nat) (lines : List Text) : Reply :=
  .ended status (lines.flatMap (· ++ [.char '\n'])) []

/-- The end after an error. -/
def failed (message : Text) : Reply :=
  .ended 1 [] (message ++ [.char '\n'])

/-- The end after a mistake in the arguments. -/
def mistaken (message : Text) : Reply :=
  failed ("FAILURE DETECTED: ".toText ++ message)

/-- The end after an error of the library. -/
def ofError (message : Text) : Reply :=
  failed ("Error: ".toText ++ message)

end Reply

/-- A text that is not empty. -/
def filled? : Option Text → Option Text
  | some (c :: r) => some (c :: r)
  | _ => none

/-- The version value that a text sets, and its key. -/
def setting? (t : Text) : Option (Text × Text) :=
  match Text.cutAt (.char '=') t with
  | (key, some value) =>
    if Text.allBlank key || Text.allBlank value then none
    else some (Text.trim key, Text.trim value)
  | (_, none) => none

/-- The entries that settings make, or the first of them that is not of the form. -/
def entries : List (Option Text) → Answer Text (List (Text × Text))
  | [] => .ok (.ok [])
  | none :: _ => .error .settingMissing
  | some t :: rest =>
    match setting? t with
    | none => .ok (.error t)
    | some entry => (entries rest).map (·.map (entry :: ·))

/-- The version values in the arguments, or the first of them that is not of the form. -/
def overrides (settings : List (Option Text)) : Answer Text (Table Text) :=
  (entries settings).map (·.map Table.ofEntries)

/-- The refusal of a version value. -/
def badSetting (t : Text) : Reply :=
  .mistaken ("--set expects key=version, got ".toText ++ Text.quoted t)

/-- The configuration with what the arguments settle, or a number of backups that makes no sense. -/
def settle (a : Arguments) (c : Config) : Answer Int Config :=
  let c := match filled? a.fragments with
    | some t => { c with fragmentsFile := some (.str t) }
    | none => c
  let c := match filled? a.backupDir with
    | some t => { c with backupDirectory := some (.str t) }
    | none => c
  let finish (c : Config) : Config :=
    if a.bestEffortBackup then { c with policy := BackupPolicy.bestEffort.name } else c
  match a.retention with
  | none => .ok (.ok (finish c))
  | some none => .error .retentionMissing
  | some (some n) => .ok (if n < 1 then .error n else .ok (finish { c with retention := n }))

/-- The file that the arguments are about. -/
def target (a : Arguments) (c : Config) (project : Project) : Except Breakdown Path :=
  match filled? a.file with
  | some t => .ok (.ofText t)
  | none =>
    match c.templatePath.bind Json.given? with
    | some v => Config.pathOf v
    | none => .ok project.templatePath

/-- Brings the file up to date. -/
def patch (env : Environment) (token : Text) (a : Arguments) (c : Config) (path : Path)
    (w : World) : World × Except Breakdown Reply :=
  match overrides a.settings with
  | .error b => (w, .error b)
  | .ok (.error t) => (w, .ok (badSetting t))
  | .ok (.ok overrides) =>
    let request : Editor.Request := {
      path, platform := a.platform, checkPlatform := a.platform.isSome, config := c
      toolchain := a.toolchain, overrides, dryRun := a.dryRun }
    let (w, report) := Editor.patchOnRequest env token request w
    (w, report.map fun r =>
      .printed (if r.isSuccess then 0 else 1)
        (r.message :: r.backups.map fun b => "Backup: ".toText ++ b.path.toText))

/-- The end when what a command needs could not be made out. -/
def refuse (e : InputError) : Except Breakdown Reply :=
  match e.breakdown? with
  | some b => .error b
  | none => .ok (.ofError e.message)

/-- One line on a fragment. -/
def stateLine (marker : Text) (state : Standing) : Text :=
  "  ".toText ++ Text.padRight 16 (.char ' ') state.name ++ .char ' ' :: marker

/-- Tells how the fragments stand in the file. -/
def check (env : Environment) (a : Arguments) (c : Config) (path : Path) (d : Disk) :
    Except Breakdown Reply :=
  match overrides a.settings with
  | .error b => .error b
  | .ok (.error t) => .ok (badSetting t)
  | .ok (.ok overrides) =>
    match Editor.prepare env d c a.toolchain overrides false with
    | .error e => refuse e
    | .ok (job, _) =>
      match inspect d job path with
      | .error b => .error b
      | .ok (.error failure) =>
        .ok (if failure.kind = .fileMissing then
          .printed 1 [Report.tag ++ .char ' ' :: failure.message, Editor.setupSteps]
        else .ofError failure.message)
      | .ok (.ok states) =>
        .ok (.printed (if states.all (·.2 == .correct) then 0 else 1)
          ((path.toText ++ " (".toText ++ job.versions.name ++ "):".toText) ::
            states.map fun (marker, state) => stateLine marker state))

/-- Lists the backups of the file. -/
def backups (env : Environment) (c : Config) (path : Path) (d : Disk) : Except Breakdown Reply :=
  match Editor.backupsOf env c with
  | .error e => refuse e
  | .ok b =>
    match b.list d path with
    | .error e => .error (.os e)
    | .ok [] => .ok <|
      .printed 0 ["no backups of ".toText ++ path.toText ++ " in ".toText ++ b.directory.toText]
    | .ok found =>
      .ok (.printed 0 (found.map fun x => x.created.iso ++ "  ".toText ++ x.path.toText))

/-- The file of the configuration. -/
def configPath (a : Arguments) (project : Project) : Path :=
  match filled? a.config with
  | some t => .ofText t
  | none => project.configPath

/-- The configuration and the file that the arguments settle, or a number of backups that makes no
sense. -/
def situation (env : Environment) (a : Arguments) (d : Disk) :
    Except Breakdown (Except Int (Config × Path)) := do
  let project ← Project.find env d none
  match ← settle a (← Config.load env d (configPath a project)) with
  | .error n => return .error n
  | .ok c => return .ok (c, ← target a c project)

/-- A breakdown that the user is told of ends the command like an error. -/
def reported : Except Breakdown Reply → Except Breakdown Reply
  | .error b => if b.isReported then .ok (.ofError b.message) else .error b
  | .ok reply => .ok reply

/-- Does what the arguments say. -/
def perform (env : Environment) (token : Text) (a : Arguments) (w : World) :
    World × Except Breakdown Reply :=
  match situation env a w.disk with
  | .error b => (w, .error b)
  | .ok (.error n) =>
    (w, .ok (.mistaken ("--retention must be at least 1, got ".toText ++ Text.ofInt n)))
  | .ok (.ok (c, path)) =>
    let (w, reply) := match a.command with
      | .patch => patch env token a c path w
      | .check => (w, check env a c path w.disk)
      | .backups => (w, backups env c path w.disk)
    (w, reported reply)

/-- Runs a command line that starts with a command. -/
def command (env : Environment) (token : Text) (words : List Text) (w : World) :
    World × Except Breakdown Reply :=
  match Arguments.ofWords words with
  | .error .misused => (w, .ok .misused)
  | .error (.helpWanted topic) => (w, .ok (.printed 0 (Help.page topic)))
  | .ok a => perform env token a w

/-- How the program is used. -/
def usage : Reply :=
  .printed 2 [
    "usage: python -m gradlepatch [-v] <command> [args]".toText,
    "commands:".toText,
    "  patch <file>     bring the Gradle template's required fragments up to date".toText,
    "  check <file>     classify fragments without writing".toText,
    "  backups <file>   list retained snapshots of a template".toText,
    "  gui              open the patch panel".toText]

/-- Whether a word asks for more to be told. -/
def isVerbosity (t : Text) : Bool :=
  ["-v".toText, "--verbose".toText].elem t

/-- Runs a command line. Words that ask for more to be told may precede the command. -/
def program (env : Environment) (token : Text) (words : List Text) (w : World) :
    World × Except Breakdown Reply :=
  match words.dropWhile isVerbosity with
  | [] => (w, .ok usage)
  | t :: ts =>
    if (Command.ofName? t).isSome then command env token (t :: ts) w else (w, .ok usage)

end CommandLine

end Graft
