import Graft.Breakdown
import Graft.Table
import Graft.Text.Blank

/-!
# The environment

What surrounds a run besides the disk: the variables of the environment and the home directories. A
path that starts with a tilde starts at one of them, the user's own or that of a user who is named.
-/

namespace Graft

/-- The variables of the environment and the home directories. -/
structure Environment where
  /-- The value of each variable. -/
  values : Table Text
  /-- The home directory of the user, as it is written. -/
  home : Text
  /-- The home directories of all users under their names, as they are written. -/
  users : Table Text := []

namespace Environment

/-- The variable that names the project root. -/
def rootVariable : Text := "GRADLEPATCH_ROOT".toText

/-- The variable that names the directory of backups. -/
def backupVariable : Text := "GRADLEPATCH_BACKUP_DIR".toText

/-- The variable that names a toolchain. -/
def toolchainVariable : Text := "GRADLEPATCH_TOOLCHAIN".toText

/-- The variable that tells how many backups are kept. -/
def retentionVariable : Text := "GRADLEPATCH_RETENTION".toText

/-- The value of a variable that has one. -/
def value? (env : Environment) (name : Text) : Option Text :=
  match env.values.get? name with
  | some (c :: r) => some (c :: r)
  | _ => none

/-- The value of a variable without the blanks around it, if that is not empty. -/
def trimmed? (env : Environment) (name : Text) : Option Text :=
  match Text.trim ((env.values.get? name).getD []) with
  | [] => none
  | t => some t

/-- The home directory that a text names. Slashes at its end do not count, and if nothing else is
there, it is the root. -/
def homeAt (t : Text) : Path :=
  match Text.dropRight (· == .char '/') t with
  | [] => ⟨.root, []⟩
  | t => .ofText t

/-- The home directory of a user, who is the one at work if there is no name. One that is written
with a tilde in front is none. -/
def homeOf (env : Environment) (user : Text) : Except Breakdown Path :=
  match if user.isEmpty then some env.home else env.users.get? user with
  | some (.char '~' :: _) => .error (.noHome user)
  | some home => .ok (homeAt home)
  | none => .error ((Disk.refusal? ⟨.here, [user]⟩).elim (.noHome user) .os)

/-- The path with the tilde at its start replaced by the home directory that it stands for. A tilde
that this brings to the start of the path is not replaced. -/
def expand (env : Environment) (p : Path) : Except Breakdown Path :=
  match p.afterTilde? with
  | none => .ok p
  | some (user, rest) =>
    (fun home => { home with parts := home.parts ++ rest }) <$> env.homeOf user

/-- The path that a text means. -/
def path (env : Environment) (t : Text) : Except Breakdown Path :=
  env.expand (.ofText t)

/-- The directory of backups unless said otherwise. It is outside every project. -/
def backupDirectory (env : Environment) : Except Breakdown Path :=
  env.path ((env.trimmed? backupVariable).getD "~/.gradlepatch/backups".toText)

/-- The home directories that the lines of a table of users give. The fields of a line stand between
colons, the name first and the directory sixth. -/
def usersOf (lines : List Text) : Table Text :=
  lines.filterMap fun line =>
    match Text.split (.char ':') line with
    | name :: _ :: _ :: _ :: _ :: home :: _ => some (name, home)
    | _ => none

end Environment

end Graft
