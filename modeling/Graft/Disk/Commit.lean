import Graft.Disk
import Graft.Text.Encoding

/-!
# Commits

`commit` writes a text to a file so that a reader finds the old content or the new one and nothing
between. The content goes to a temporary file beside the target, which takes over the target's
permission bits and then its name. Where the file system does not let a file replace another, the
old one is set aside under a name of its own, and moved back if the new one cannot take its place.
Whatever happens, the temporary file is removed in the end.

The calls that the file system can refuse for reasons of its own are listed in `Commit.Faults`, so
that a commit is a function of the disk and of what goes wrong.
-/

namespace Graft

namespace Commit

/-- What goes wrong while a commit runs, beyond what the disk itself refuses. -/
structure Faults where
  /-- Every name for the temporary file is taken. -/
  noTempName : Bool := false
  /-- Every name for the file set aside is taken. -/
  noAsideName : Bool := false
  /-- The temporary file cannot be brought to the disk. -/
  sync : Option Text := none
  /-- The file system does not let a file replace another. -/
  replaceForbidden : Bool := false
  /-- The replacement fails for another reason. -/
  replace : Option Text := none
  /-- The old file cannot be set aside. -/
  setAside : Option Text := none
  /-- The new file cannot take the place of the one set aside. -/
  moveIn : Option Text := none
  /-- The file set aside cannot be moved back. -/
  moveBack : Option Text := none
  /-- The file set aside cannot be removed. -/
  keepAside : Bool := false
  /-- The temporary file cannot be removed. -/
  keepTemp : Bool := false
  /-- The directory cannot be opened. -/
  openDirectory : Bool := false
  /-- The directory cannot be brought to the disk. -/
  syncDirectory : Bool := false

/-- Why a commit fails. -/
inductive Cause where
  /-- There is no name left for a file beside the target. -/
  | noName
  /-- The encoding cannot write the text. -/
  | unencodable (error : Unencodable)
  /-- The file system refuses. -/
  | os (error : OsError)
  deriving DecidableEq, Repr

/-- A commit that failed. -/
inductive Failure where
  /-- The target has no name. -/
  | nameless (target : Path)
  /-- The target's path holds the null character. -/
  | nullCharacter
  /-- The target could not be written. -/
  | unwritten (target : Path) (cause : Cause)
  deriving DecidableEq, Repr

namespace Failure

/-- The failure in words. -/
def message : Failure → Text
  | nameless target => target.namelessMessage
  | nullCharacter => OsError.nullCharacter.message
  | unwritten target cause =>
    "could not write ".toText ++ target.toText ++ ": ".toText ++
      match cause with
      | .noName => "Unable to allocate unique temp path for ".toText ++ target.toText
      | .unencodable e => e.message
      | .os e => e.message

end Failure

/-- Whether the directory of a file that was written is known to be on the disk, too. -/
inductive Durability where
  /-- The entry is on the disk. -/
  | synced
  /-- The entry may still be lost if the machine stops. -/
  | unsynced
  deriving DecidableEq, Repr

/-- How many names are tried for a file beside the target. -/
def attempts : Nat := 10000

/-- The mark of a temporary file. -/
def tempMark : Text := "gradlepatch.tmp".toText

/-- The mark of a file set aside. -/
def asideMark : Text := "gradlepatch.old".toText

/-- The `n`-th name for a file beside the target. -/
def besideName (target : Path) (mark token : Text) (n : Nat) : Path :=
  target.sibling (target.name ++ .char '.' :: mark ++ .char '.' :: token ++
    .char '.' :: Text.ofNat n)

/-- The first of the names beside the target that is free. -/
def freeName (d : Disk) (blocked : Bool) (target : Path) (mark token : Text) : Except Cause Path :=
  match (List.range attempts).find? fun n => !d.isPresent (besideName target mark token n) with
  | some n => if blocked then .error .noName else .ok (besideName target mark token n)
  | none => .error .noName

/-- A call to the file system, unless it is bound to fail. -/
def attempt (fault : Option Text) (call : Except OsError Disk) : Except Cause Disk :=
  match fault with
  | some reason => .error (.os (.refused reason))
  | none => call.mapError .os

/-- The disk without a file, if the file can be removed. -/
def discard (kept : Bool) (path : Path) (d : Disk) : Disk :=
  if kept then d
  else
    match d.removeFile path with
    | .ok d' => d'
    | .error _ => d

/-- The disk with the permission bits of the target, if it is there, on another file. -/
def copyMode (d : Disk) (target temp : Path) : Disk :=
  let mode? := match d.node? target with
    | some (.file f) => some f.mode
    | some (.directory mode) => some mode
    | none => none
  match mode?.map (d.setMode temp) with
  | some (.ok d') => d'
  | _ => d

/-- Sets the target aside and moves the temporary file to its place, or the old one back. -/
def swap (faults : Faults) (token : Text) (d : Disk) (temp target : Path) :
    Disk × Except Cause Unit :=
  match freeName d faults.noAsideName target asideMark token with
  | .error e => (d, .error e)
  | .ok aside =>
    match attempt faults.setAside (d.rename target aside) with
    | .error e => (d, .error e)
    | .ok d₁ =>
      match attempt faults.moveIn (d₁.rename temp target) with
      | .ok d₂ => (discard faults.keepAside aside d₂, .ok ())
      | .error e =>
        match attempt faults.moveBack (d₁.rename aside target) with
        | .ok d₂ => (d₂, .error e)
        | .error e' => (d₁, .error e')

/-- Lets the temporary file take the place of the target. -/
def replace (faults : Faults) (token : Text) (d : Disk) (temp target : Path) :
    Disk × Except Cause Unit :=
  if faults.replaceForbidden then swap faults token d temp target
  else
    match attempt faults.replace (d.rename temp target) with
    | .ok d' => (d', .ok ())
    | .error e => (d, .error e)

/-- Fills an empty temporary file and lets it take the place of the target. -/
def fill (faults : Faults) (token : Text) (encoding : Encoding) (d : Disk) (temp target : Path)
    (content : Text) : Disk × Except Cause Unit :=
  match encoding.encode content with
  | .error e => (d, .error (.unencodable e))
  | .ok bytes =>
    match d.writeFile temp bytes with
    | .error e => (d, .error (.os e))
    | .ok d₁ =>
      match faults.sync with
      | some reason => (d₁, .error (.os (.refused reason)))
      | none => replace faults token (copyMode d₁ target temp) temp target

/-- Whether the directory of the target is brought to the disk after a replacement. -/
def durability (faults : Faults) (d : Disk) (target : Path) : Durability :=
  match d.openDirectory target.parent with
  | .ok _ => if faults.openDirectory || faults.syncDirectory then .unsynced else .synced
  | .error _ => .unsynced

end Commit

open Commit in
/-- Writes a text to a file. The token tells the names of this commit's files from all others. -/
def commit (faults : Faults) (token : Text) (encoding : Encoding) (d : Disk) (target : Path)
    (content : Text) : Disk × Except Commit.Failure Durability :=
  if target.name.isEmpty then (d, .error (.nameless target))
  else
    match freeName d faults.noTempName target tempMark token with
    | .error e => (d, .error (.unwritten target e))
    | .ok temp =>
      match d.createFile temp .empty with
      | .error .nullCharacter => (d, .error .nullCharacter)
      | .error e => (d, .error (.unwritten target (.os e)))
      | .ok d₁ =>
        match fill faults token encoding d₁ temp target content with
        | (d₂, .ok ()) =>
          (discard faults.keepTemp temp d₂, .ok (durability faults d₂ target))
        | (d₂, .error e) => (discard faults.keepTemp temp d₂, .error (.unwritten target e))

end Graft
