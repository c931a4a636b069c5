import Graft.Backup
import Graft.Environment
import Graft.Json.Reader
import Graft.Json.Shown
import Graft.Json.Writer
import Graft.Run
import Graft.Text.Encoding

/-!
# Configurations

What a user can settle once for a project is kept in a file that holds a JSON object. A field that
is missing or empty, or whose value makes no sense, stands for its default; variables of the
environment have the last word (`Config.withEnvironment`). What a file holds never makes reading
fail, and only two things in it make reading break down: a number of backups that is not finite, and
values nested too deeply. A path that is no text breaks down where it is needed.
-/

namespace Graft

/-- What a user can settle once for a project. -/
structure Config where
  /-- The file to patch. -/
  templatePath : Option Json := none
  /-- The directory of backups. -/
  backupDirectory : Option Json := none
  /-- How many backups are kept of a file. -/
  retention : Int := Backups.defaultRetention
  /-- The name of the backup policy. -/
  policy : Text := BackupPolicy.strict.name
  /-- The name of the version set. -/
  toolchain : Text := "modern".toText
  /-- The file of fragments to use in place of the built-in ones. -/
  fragmentsFile : Option Json := none

namespace Config

/-- The value under a key, if it counts as given. -/
def field? (key : String) (v : Json) : Option Json :=
  (v.get? key.toText).bind Json.given?

/-- The number of backups that a value gives, at least one. -/
def retentionOf (v : Option Json) : Except Breakdown Int :=
  match v with
  | some (.bool true) => .ok 1
  | some (.int n) => .ok (max 1 n)
  | some (.float (.finite false m q)) => .ok (max 1 (Binary.wholePart m q : Int))
  | some (.float (.finite true ..)) => .ok 1
  | some (.float (.infinite _)) => .error .infiniteRetention
  | some (.str t) => .ok (((Text.toInt? t).map (max 1)).getD Backups.defaultRetention)
  | _ => .ok Backups.defaultRetention

/-- The name of the policy that a value gives, if it is that of a policy. -/
def policyOf (v : Option Json) : Text :=
  match v.bind fun v => BackupPolicy.ofName? v.asText with
  | some policy => policy.name
  | none => BackupPolicy.strict.name

/-- The configuration that the fields of an object give. -/
def ofJson (v : Json) : Except Breakdown Config := do
  return {
    templatePath := field? "template_path" v
    backupDirectory := field? "backup_dir" v
    retention := ← retentionOf (field? "backup_retention" v)
    policy := policyOf (field? "additive_backup_policy" v)
    toolchain := ((field? "toolchain" v).map Json.asText).getD "modern".toText
    fragmentsFile := field? "fragments_file" v }

/-- The configuration as an object. -/
def toJson (c : Config) : Json :=
  .obj [
    ("template_path".toText, c.templatePath.getD .null),
    ("backup_dir".toText, c.backupDirectory.getD .null),
    ("backup_retention".toText, .int c.retention),
    ("additive_backup_policy".toText, .str c.policy),
    ("toolchain".toText, .str c.toolchain),
    ("fragments_file".toText, c.fragmentsFile.getD .null)]

/-- The configuration with what the environment settles. -/
def withEnvironment (env : Environment) (c : Config) : Config :=
  let c := match env.value? Environment.toolchainVariable with
    | some t => { c with toolchain := Text.trim t }
    | none => c
  let c := match env.value? Environment.backupVariable with
    | some t => { c with backupDirectory := some (.str (Text.trim t)) }
    | none => c
  match (env.trimmed? Environment.retentionVariable).bind Text.toInt? with
  | some n => { c with retention := max 1 n }
  | none => c

/-- The object in a file, if there is a file and it holds one. -/
def readFields (d : Disk) (path : Path) : Except Breakdown (Option Json) :=
  match d.look path with
  | .error e => .error (.os e)
  | .ok _ =>
    match d.fileAt path with
    | .error _ => .ok none
    | .ok f =>
      match (Encoding.decode f.content).map Json.read with
      | some (.ok (.obj fields)) => .ok (some (.obj fields))
      | some (.error .tooDeep) => .error .tooDeep
      | _ => .ok none

/-- The configuration in a file. -/
def load (env : Environment) (d : Disk) (path : Path) : Except Breakdown Config := do
  match ← readFields d path with
  | none => return withEnvironment env {}
  | some fields => return withEnvironment env (← ofJson fields)

/-- Why a configuration is not saved. -/
inductive SaveError where
  /-- The path has no name. -/
  | nameless (path : Path)
  /-- The file system refuses. -/
  | os (error : OsError)
  /-- The content cannot be written in UTF-8. -/
  | unencodable (error : Unencodable)
  deriving DecidableEq, Repr

namespace SaveError

/-- The error in words. -/
def message : SaveError → Text
  | nameless path => path.namelessMessage
  | os e => e.message
  | unencodable e => e.message

end SaveError

/-- The content of a configuration's file. -/
def content (c : Config) : Text :=
  c.toJson.indented ++ [.char '\n']

/-- Saves a configuration by way of a temporary file, which is made before the content is encoded
and stays, empty, if that fails. -/
def save (d : Disk) (path : Path) (c : Config) : Disk × Except SaveError Unit :=
  match d.makePath path.parent with
  | (d, .error e) => (d, .error (.os e))
  | (d, .ok ()) =>
    if path.name.isEmpty then (d, .error (.nameless path))
    else
      let temp := path.sibling (path.name ++ ".tmp".toText)
      match Encoding.utf8.encode c.content with
      | .error e =>
        match d.writeFile temp .empty with
        | .error e => (d, .error (.os e))
        | .ok d => (d, .error (.unencodable e))
      | .ok bytes =>
        match d.writeFile temp bytes with
        | .error e => (d, .error (.os e))
        | .ok d =>
          match d.rename temp path with
          | .error e => (d, .error (.os e))
          | .ok d => (d, .ok ())

/-- The path that a value writes. -/
def pathOf : Json → Except Breakdown Path
  | .str t => .ok (.ofText t)
  | _ => .error .notText

/-- The directory of backups. -/
def backupsPath (env : Environment) (c : Config) : Except Breakdown Path := do
  match c.backupDirectory.bind Json.given? with
  | some v => env.expand (← pathOf v)
  | none => env.backupDirectory

end Config

end Graft
