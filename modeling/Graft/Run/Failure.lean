import Graft.Backup
import Graft.Document
import Graft.Edit.Insertion
import Graft.Edit.Span

/-!
# Failures

The ways in which a run over a file can fail, and the kinds that a caller tells apart. A kind is
recoverable when the user can mend what is wrong, by setting something up or by editing the file.
-/

namespace Graft

/-- The kind of a failure; `none` is that of a success. -/
inductive Failure.Kind where
  | none
  | fileMissing
  | anchorNotFound
  | patternNotFound
  | structuralCorruption
  | backupFailed
  | ioFailure
  | invalidDefinition
  deriving DecidableEq, Repr

namespace Failure.Kind

/-- All kinds. -/
def all : List Failure.Kind :=
  [none, fileMissing, anchorNotFound, patternNotFound, structuralCorruption, backupFailed,
    ioFailure, invalidDefinition]

/-- The name of a kind. -/
def name : Failure.Kind → Text
  | none => "none".toText
  | fileMissing => "file_missing".toText
  | anchorNotFound => "anchor_not_found".toText
  | patternNotFound => "pattern_not_found".toText
  | structuralCorruption => "structural_corruption".toText
  | backupFailed => "backup_failed".toText
  | ioFailure => "io_failure".toText
  | invalidDefinition => "invalid_definition".toText

/-- Whether the user can mend what is wrong. -/
def isRecoverable : Failure.Kind → Bool
  | fileMissing | anchorNotFound | patternNotFound => true
  | _ => false

/-- What a report tells the user to do, after a line feed. -/
def advice : Failure.Kind → Text
  | anchorNotFound => "\nManual edit required; the file was not modified.".toText
  | patternNotFound => "\nManual cleanup required; the file was not modified.".toText
  | invalidDefinition =>
    "\nCheck the fragment definitions and version set; the file was not modified.".toText
  | structuralCorruption | backupFailed => "\nThe file was not modified.".toText
  | _ => []

end Failure.Kind

/-- Why a run over a file fails. -/
inductive Failure where
  /-- There is no document. -/
  | unread (error : ReadError)
  /-- The braces of the document do not pair up. -/
  | malformed (error : Imbalance)
  /-- A fragment cannot be rendered, or the fragments cannot be ordered. -/
  | definition (error : DefinitionError)
  /-- It cannot be told where a stale fragment ends. -/
  | unbounded (error : Unbounded)
  /-- The block that an anchor names is not there. -/
  | noAnchor (error : AnchorMissing)
  /-- There is no backup of the file. -/
  | noBackup (error : BackupError)
  /-- The braces of the edited document do not pair up. -/
  | unbalanced (error : Imbalance)
  /-- A fragment is not in the edited document once and with all that it requires. -/
  | unvalidated (marker : Text) (missing : List Text)
  /-- The edited document could not be written. -/
  | unwritten (reason : Text)
  deriving DecidableEq, Repr

namespace Failure

/-- The kind of a failure. -/
def kind : Failure → Failure.Kind
  | unread (.missing _) => .fileMissing
  | unread (.unreadable ..) => .ioFailure
  | malformed _ => .structuralCorruption
  | definition _ => .invalidDefinition
  | unbounded _ => .patternNotFound
  | noAnchor _ => .anchorNotFound
  | noBackup _ => .backupFailed
  | unbalanced _ => .structuralCorruption
  | unvalidated .. => .patternNotFound
  | unwritten _ => .ioFailure

/-- The failure in words. -/
def message : Failure → Text
  | unread e => e.message
  | malformed e =>
    "file is malformed before patching (".toText ++ e.message ++ "); not modified".toText
  | definition e => e.message
  | unbounded e => e.message
  | noAnchor e => e.message
  | noBackup e => e.message
  | unbalanced e =>
    "patched content is unbalanced (".toText ++ e.message ++ "); nothing written".toText
  | unvalidated marker missing =>
    Text.quoted marker ++ " does not validate after patching (missing ".toText ++
      Text.quotedList missing ++ "); check the fragment definition".toText
  | unwritten reason => reason

/-- The failure that an insertion error is. -/
def ofInsertion : InsertionError → Failure
  | .noBlock e => noAnchor e
  | .definition e => definition e

end Failure

end Graft
