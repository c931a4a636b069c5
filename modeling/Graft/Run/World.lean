import Graft.Disk.Commit
import Graft.Run

/-!
# Worlds

A world is what a run works on when it is for real: a disk, and a clock for the names of backups. It
reads documents, takes backups and commits new content, and so provides the services of a run.
Telling how the fragments stand needs a disk alone, and changes nothing.
-/

namespace Graft

/-- How each fragment of a job stands in the file at a path. -/
def inspect (d : Disk) (job : Job) (path : Path) : Answer Failure (Table Standing) :=
  match Document.read d path with
  | .error b => .error b
  | .ok (.error e) => .ok (.error (.unread e))
  | .ok (.ok doc) =>
    .ok ((standings doc.text job.fragments.fragments job.versions).mapError .definition)

/-- A clock that gives one moment after another and stands still at the last. -/
structure Clock where
  /-- The moment that it gives next. -/
  next : Moment
  /-- The moments after that. -/
  later : List Moment := []

namespace Clock

/-- The moment that the clock gives, and the clock afterwards. -/
def tick (c : Clock) : Moment × Clock :=
  match c.later with
  | [] => (c.next, c)
  | m :: ms => (c.next, ⟨m, ms⟩)

end Clock

/-- A disk and a clock. -/
structure World where
  /-- The disk. -/
  disk : Disk
  /-- The clock. -/
  clock : Clock

namespace World

/-- Takes a backup now. The clock is only looked at for a path that has a key. -/
def snapshot (backups : Backups) (path : Path) (w : World) : World × Answer BackupError Backup :=
  match Backup.key? w.disk path with
  | .error e => (w, .error (.os e))
  | .ok _ =>
    let (now, clock) := w.clock.tick
    let (disk, result) := backups.snapshot w.disk now path
    (⟨disk, clock⟩, result)

/-- What a commit that failed means for a run: only that the file could not be written is
foreseen. -/
def refusal : Commit.Failure → Answer Text Unit
  | .nameless target => .error (.nameless target)
  | .nullCharacter => .error (.os .nullCharacter)
  | .unwritten target cause => .ok (.error (Commit.Failure.unwritten target cause).message)

/-- Writes a file by a commit in UTF-8. -/
def write (faults : Commit.Faults) (token : Text) (path : Path) (content : Text) (w : World) :
    World × Answer Text Unit :=
  match commit faults token .utf8 w.disk path content with
  | (disk, .ok _) => ({ w with disk }, .ok (.ok ()))
  | (disk, .error e) => ({ w with disk }, refusal e)

/-- The services that a disk and a clock provide. -/
def services (backups : Backups) (token : Text) : Services World where
  read := fun path w => Document.read w.disk path
  snapshot := snapshot backups
  write := write {} token

end World

end Graft
