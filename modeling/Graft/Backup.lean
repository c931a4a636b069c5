import Graft.Digest
import Graft.Environment
import Graft.Moment

/-!
# Backups

Backups of files are kept in one directory, away from the files. The name of a backup tells which
file it is of, when it was taken and, as there can be several at one moment, a number. The number is
the first that is free, and after each snapshot all backups of the file but the newest are removed.

What is kept is read off the names alone (`Backups.list`): a file whose name does not start with the
key of the source, or whose moment or number cannot be read, is no backup of it.
-/

namespace Graft

/-- A directory of backups, and how many are kept of each file. -/
structure Backups where
  /-- The directory. -/
  directory : Path
  /-- How many backups are kept of each file. -/
  retention : Nat
  /-- The newest is never removed. -/
  one_le_retention : 1 ≤ retention

/-- A backup. -/
structure Backup where
  /-- Where it is. -/
  path : Path
  /-- The file it is of. -/
  source : Path
  /-- When it was taken. -/
  created : Moment
  /-- Its number among the backups of one moment. -/
  number : Int
  deriving DecidableEq, Repr

/-- A snapshot that failed. -/
structure BackupError where
  /-- The file that was to be copied. -/
  source : Path
  /-- The directory of the backups. -/
  directory : Path
  /-- What the file system refused. -/
  cause : OsError
  deriving DecidableEq, Repr

namespace BackupError

/-- The failure in words. -/
def message (e : BackupError) : Text :=
  "could not back up ".toText ++ e.source.toText ++ " to ".toText ++ e.directory.toText ++
    ": ".toText ++ e.cause.message

end BackupError

namespace Backup

/-- The end of the name of every backup. -/
def ending : Text := ".bak".toText

/-- How many digits of the digest are part of a key. -/
def keyDigits : Nat := 10

/-- What the names of all backups of a file start with: its name, and a digest of where it is to
tell it from others of the name. -/
def key (here : Location) (source : Path) : Text :=
  let resolved := source.resolve here
  resolved.name ++ .char '-' ::
    (Digest.hex (Encoding.utf8.bytes resolved.toText).toList).take keyDigits

/-- The key of a file, if it can be told where the file is and that can be written in UTF-8. -/
def key? (d : Disk) (source : Path) : Except OsError Text := do
  let l ← d.resolve source
  match Encoding.utf8.encode (Path.ofLocation l).toText with
  | .error e => .error (.unencodable e)
  | .ok _ => return key d.here source

/-- The name of a backup. -/
def fileName (key : Text) (created : Moment) (number : Nat) : Text :=
  key ++ .char '.' :: created.stamp ++ .char '.' ::
    Text.padLeft 3 (.char '0') (Text.ofNat number) ++ ending

/-- The part of a backup's name between the key and the ending. -/
def label? (key name : Text) : Option Text :=
  let start := key ++ [.char '.']
  if start.isPrefixOf name ∧ ending.isSuffixOf name then
    some (Text.slice name start.length (name.length - ending.length))
  else none

/-- The moment and the number in a backup's name. No number counts as zero. -/
def read? (key name : Text) : Option (Moment × Int) := do
  let label ← label? key name
  let (stamp, number) := Text.cutAt (.char '.') label
  let created ← Moment.ofStamp? stamp
  match number with
  | none | some [] => return (created, 0)
  | some digits => return (created, ← Text.toInt? digits)

/-- Whether a backup was taken before another. -/
def isOlder (a b : Backup) : Bool :=
  a.created.parts < b.created.parts || (a.created == b.created && a.number < b.number)

end Backup

namespace Backups

/-- How many backups of a file are kept unless said otherwise. -/
def defaultRetention : Nat := 5

/-- The refusal to keep no backup. -/
def noRetention : Text := "backup retention must be at least 1".toText

/-- Backups in a directory, if at least one is to be kept of each file. A tilde at the start of the
directory stands for a home directory. -/
def make? (env : Environment) (directory : Path) (retention : Int) :
    Except Breakdown (Option Backups) :=
  if h : 1 ≤ retention then
    (fun directory => some ⟨directory, retention.toNat, by omega⟩) <$> env.expand directory
  else .ok none

/-- The path of the backup of a name. -/
def pathOf (b : Backups) (name : Text) : Path :=
  b.directory.child name

/-- The backups of a file among names in the directory, the newest first. -/
def listAmong (b : Backups) (d : Disk) (source : Path) (names : List Text) : List Backup :=
  let key := Backup.key d.here source
  let found := names.filterMap fun name =>
    if d.isFile (b.pathOf name) then
      (Backup.read? key name).map fun (created, number) =>
        (⟨b.pathOf name, source, created, number⟩ : Backup)
    else none
  found.mergeSort fun x y => !Backup.isOlder x y

/-- The backups of a file, the newest first. That an entry is a file can only be told in a directory
that lets names be looked up. -/
def list (b : Backups) (d : Disk) (source : Path) : Except OsError (List Backup) := do
  match ← d.look b.directory with
  | some (.directory mode) =>
    let _ ← Backup.key? d source
    let names := d.entries (← d.openDirectory b.directory)
    if names.isEmpty || mode.grants .search then return b.listAmong d source names
    else .error (.denied b.directory)
  | _ => return []

/-- Removes backups one after the other, and tells which could be removed: none if the file system
lets none be removed. -/
def removeAll (stuck : Bool) (d : Disk) : List Backup → Disk × List Backup
  | [] => (d, [])
  | backup :: rest =>
    match d.removeFile backup.path with
    | .ok d' =>
      if stuck then removeAll stuck d rest
      else
        let (d'', removed) := removeAll stuck d' rest
        (d'', backup :: removed)
    | .error _ => removeAll stuck d rest

/-- Removes all backups of a file but the newest, and tells which could be removed. -/
def prune (b : Backups) (stuck : Bool) (d : Disk) (source : Path) :
    Disk × Except OsError (List Backup) :=
  match b.list d source with
  | .error e => (d, .error e)
  | .ok found =>
    let (d', removed) := removeAll stuck d (found.drop b.retention)
    (d', .ok removed)

/-- The first number that is free for a backup of a moment. There are more numbers to choose from
than things on the disk. -/
def freeNumber (b : Backups) (d : Disk) (key : Text) (created : Moment) : Nat :=
  ((List.range (d.nodes.length + 1)).find? fun n =>
    !d.isPresent (b.pathOf (Backup.fileName key created n))).getD d.nodes.length

/-- A copy of a file with its permission bits. -/
def copy (d : Disk) (source target : Path) : Except OsError Disk := do
  let f ← d.fileAt source
  (← d.writeFile target f.content).setMode target f.mode

/-- Copies a file into the directory, which is made if need be, without removing anything. -/
def store (b : Backups) (d : Disk) (now : Moment) (source : Path) :
    Disk × Except OsError Backup :=
  match d.makePath b.directory with
  | (d₁, .error e) => (d₁, .error e)
  | (d₁, .ok ()) =>
    let key := Backup.key d.here source
    let number := b.freeNumber d₁ key now
    let target := b.pathOf (Backup.fileName key now number)
    match copy d₁ source target with
    | .error e => (d₁, .error e)
    | .ok d₂ => (d₂, .ok ⟨target, source, now, number⟩)

/-- What a refusal means for a snapshot: a failure if it is the file system that refuses. -/
def failure (b : Backups) (source : Path) : OsError → Answer BackupError Backup
  | .nullCharacter => .error (.os .nullCharacter)
  | .unencodable e => .error (.os (.unencodable e))
  | .tooDeep => .error (.os .tooDeep)
  | e => .ok (.error ⟨source, b.directory, e⟩)

/-- Takes a backup of a file and removes those that are too many. Without a key this breaks down. It
does so, too, if the entries of the directory cannot be listed, but then the backup is there. -/
def snapshot (b : Backups) (d : Disk) (now : Moment) (source : Path) :
    Disk × Answer BackupError Backup :=
  match Backup.key? d source with
  | .error e => (d, .error (.os e))
  | .ok _ =>
    match b.store d now source with
    | (d₁, .error e) => (d₁, b.failure source e)
    | (d₁, .ok backup) =>
      match b.prune false d₁ source with
      | (d₂, .ok _) => (d₂, .ok (.ok backup))
      | (d₂, .error e) => (d₂, .error (.os e))

end Backups

end Graft
