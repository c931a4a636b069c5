import Graft.Run.Plan

/-!
# Reports

A report tells how a run ended, what was found and done on the way, and where the backups are.
Whether the run succeeded, whether it changed the file, the kind of its failure and its message all
follow from that.
-/

namespace Graft

/-- How a run ended. -/
inductive Outcome where
  /-- There was no reason to run. -/
  | skipped
  /-- The fragments or the versions to run with could not be made out. -/
  | unprepared (reason : Text)
  /-- The run failed. -/
  | failed (failure : Failure)
  /-- There was nothing to change. -/
  | upToDate
  /-- There was something to change, but nothing was to be written. -/
  | wouldPatch
  /-- The file was changed. -/
  | patched
  deriving DecidableEq, Repr

/-- What did not go as it should without making the run a failure. -/
inductive Warning where
  /-- There is no backup. -/
  | noBackup (error : BackupError)
  /-- What was to follow the change failed. -/
  | notRefreshed (reason : Text)
  deriving DecidableEq, Repr

namespace Warning

/-- The warning in words. -/
def message : Warning → Text
  | noBackup e => "backup skipped: ".toText ++ e.message
  | notRefreshed reason => "post-commit refresh failed: ".toText ++ reason

end Warning

/-- The account of a run. -/
structure Report where
  /-- The file. -/
  path : Path
  /-- How the run ended. -/
  outcome : Outcome
  /-- How many fragments there are. -/
  fragmentCount : Nat := 0
  /-- How each fragment stood in the text that was read. -/
  states : Table Standing := []
  /-- What was done to the text. -/
  actions : List Action := []
  /-- What did not go as it should. -/
  warnings : List Warning := []
  /-- The backups taken. -/
  backups : List Backup := []
  /-- What else the user should know. -/
  hint : Option Text := none

namespace Report

/-- The tag that messages start with. -/
def tag : Text := "[GradlePatch]".toText

/-- The account of a run that there was no reason for. -/
def ofSkipped (path : Path) : Report :=
  { path, outcome := .skipped }

/-- The account of a run whose fragments or versions could not be made out. -/
def ofUnprepared (path : Path) (reason : Text) : Report :=
  { path, outcome := .unprepared reason }

/-- The kind of the failure. -/
def kind (r : Report) : Failure.Kind :=
  match r.outcome with
  | .unprepared _ => .invalidDefinition
  | .failed failure => failure.kind
  | _ => .none

/-- Whether the run did not fail. -/
def isSuccess (r : Report) : Bool :=
  r.kind == .none

/-- Whether the file was changed. -/
def isChanged (r : Report) : Bool :=
  r.outcome == .patched

/-- Whether there was no reason to run. -/
def isSkipped (r : Report) : Bool :=
  r.outcome == .skipped

/-- Whether the user has something to mend. -/
def needsUserAction (r : Report) : Bool :=
  !r.isSuccess && r.kind.isRecoverable

/-- The name of the file between quotes. -/
def shownName (r : Report) : Text :=
  .char '\'' :: r.path.name ++ [.char '\'']

/-- A failure in words, and what to do about it. -/
def failureMessage (r : Report) (reason : Text) : Text :=
  " Failed to patch ".toText ++ r.shownName ++ ": ".toText ++ reason ++ r.kind.advice

/-- A change in words. -/
def changeMessage (r : Report) (verb : String) : Text :=
  .char ' ' :: verb.toText ++ .char ' ' :: r.shownName ++ ": ".toText ++
    Text.join "; ".toText (r.actions.map Action.describe) ++ [.char '.']

/-- The account in words. -/
def message (r : Report) : Text :=
  tag ++
  (match r.outcome with
    | .skipped => " Skipped ".toText ++ r.path.name ++ ": not applicable right now.".toText
    | .unprepared reason => r.failureMessage reason
    | .failed failure => r.failureMessage failure.message
    | .upToDate =>
      .char ' ' :: r.shownName ++ " is up to date (".toText ++ Text.ofNat r.fragmentCount ++
        " fragment(s) checked).".toText
    | .wouldPatch => r.changeMessage "Would patch"
    | .patched => r.changeMessage "Successfully patched") ++
  r.warnings.flatMap (fun w => "\nWarning: ".toText ++ w.message) ++
  (match r.hint with
    | some hint => .char '\n' :: hint
    | none => [])

end Report

end Graft
