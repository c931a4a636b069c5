import Graft.Disk

/-!
# Breakdowns

Most of what can go wrong is foreseen. It has an error type of its own, and whoever meets it tells
the user. A breakdown is what nobody foresees: it ends whatever is going on, and no report is made
of it. An `Answer` keeps the two apart, so that what handles an error cannot handle a breakdown by
accident.
-/

namespace Graft

/-- What ends whatever is going on. -/
inductive Breakdown where
  /-- The file system refuses a call that is not expected to fail. -/
  | os (error : OsError)
  /-- A path starts at the home directory of a user who has none. -/
  | noHome (user : Text)
  /-- There is a value that is no text where a path belongs. -/
  | notText
  /-- A number of backups is not finite. -/
  | infiniteRetention
  /-- The option for a number of backups is there without its value. -/
  | retentionMissing
  /-- The option for a version is there without its value. -/
  | settingMissing
  /-- A JSON text is nested too deeply to be read. -/
  | tooDeep
  /-- The path of a file that is to be written has no name. -/
  | nameless (path : Path)
  /-- Whoever was called fails in a way of its own. -/
  | foreign (reason : Text)
  deriving DecidableEq, Repr

namespace Breakdown

/-- The breakdown in words. -/
def message : Breakdown → Text
  | os e => e.message
  | noHome _ => "Could not determine home directory.".toText
  | notText => "a path in the configuration is no text".toText
  | infiniteRetention => "the number of backups to keep is not finite".toText
  | retentionMissing => "the option for the number of backups has no value".toText
  | settingMissing => "an option for a version has no value".toText
  | tooDeep => "a JSON text is nested too deeply".toText
  | nameless path => path.namelessMessage
  | foreign reason => reason

/-- Whether the user is told of a breakdown as of an error: of a path that cannot be that of a file,
which can only come from what the user wrote. -/
def isReported : Breakdown → Bool
  | os .nullCharacter | os (.unencodable _) | nameless _ => true
  | _ => false

end Breakdown

/-- What comes of something that can fail and can break down. -/
abbrev Answer (ε α : Type) := Except Breakdown (Except ε α)

end Graft
