import Graft.Text.Numeral

/-!
# Arguments

The words of a command line name a command, give at most one file and set options. An option may be
shortened as long as only one begins so; its value follows an equals sign or is the next word. A
word that starts with a dash is no option if it is a single dash, a negative number, or holds a
space without beginning an option, and every word after two dashes alone is a file. As two dashes
count for nothing, an option that has them for its value after an equals sign has none.

Words that have no place do not end the reading: one that asks for help after them is still heard.
-/

namespace Graft

namespace CommandLine

/-- What the program can be told to do. -/
inductive Command where
  /-- Bring a file up to date. -/
  | patch
  /-- Tell how the fragments stand in a file. -/
  | check
  /-- List the backups of a file. -/
  | backups
  deriving DecidableEq, Repr

namespace Command

/-- The word for a command. -/
def name : Command → Text
  | patch => "patch".toText
  | check => "check".toText
  | backups => "backups".toText

/-- All commands. -/
def all : List Command := [patch, check, backups]

/-- The command of a word. -/
def ofName? (t : Text) : Option Command :=
  all.find? (·.name == t)

end Command

/-- An option. -/
inductive Switch where
  | help
  | config
  | toolchain
  | fragments
  | backupDir
  | retention
  | set
  | platform
  | bestEffortBackup
  | dryRun
  deriving DecidableEq, Repr

namespace Switch

/-- Whether a value goes with an option. -/
def takesValue : Switch → Bool
  | help | bestEffortBackup | dryRun => false
  | _ => true

/-- The names of the options that may stand before a command. -/
def general : List (Text × Switch) :=
  [("-h".toText, help), ("--help".toText, help)]

/-- The names of the options of a command. -/
def names (command : Command) : List (Text × Switch) :=
  general ++ [("--config".toText, config), ("--toolchain".toText, toolchain),
    ("--fragments".toText, fragments), ("--backup-dir".toText, backupDir),
    ("--retention".toText, retention)] ++
  match command with
  | .patch =>
    [("--set".toText, set), ("--platform".toText, platform),
      ("--best-effort-backup".toText, bestEffortBackup), ("--dry-run".toText, dryRun)]
  | .check => [("--set".toText, set)]
  | .backups => []

end Switch

/-- Why the words of a command line are no arguments. -/
inductive Refusal where
  /-- The words make no sense. -/
  | misused
  /-- The user asked how a command is used, or else how the program is. -/
  | helpWanted (topic : Option Command)
  deriving DecidableEq, Repr

/-- A word of a command line, read by itself. -/
inductive Token where
  /-- A file, or the value of an option. -/
  | word (t : Text)
  /-- Two dashes alone. -/
  | separator
  /-- An option, and the value after an equals sign. -/
  | option (switch : Switch) (value : Option Text)
  /-- An option that there is not. -/
  | unknown
  deriving DecidableEq, Repr

namespace Token

/-- The digits after the dash of a negative number, a line feed at the end not counting. -/
def isUnsignedNumber (t : Text) : Bool :=
  let t := if t.getLast? = some (.char '\n') then t.dropLast else t
  let isDigit c := (Text.digitValue? c).isSome
  let (whole, part) := Text.cutAt (.char '.') t
  match part with
  | none => !whole.isEmpty && whole.all isDigit
  | some part => whole.all isDigit && !part.isEmpty && part.all isDigit

/-- The value that what is written behind an option's name gives it. Behind the letter of a short
name, the same letter again is no value but the same option again. -/
def valueBehind (name t : Text) : Option Text :=
  match name, t with
  | [.char '-', letter], _ :: _ => if t.all (· == letter) then none else some t
  | _, _ => some t

/-- The options that a word may mean without naming one, each with the value that it would have. -/
def readings (names : List (Text × Switch)) (t : Text) : List (Switch × Option Text) :=
  match t with
  | .char '-' :: .char '-' :: _ =>
    let (start, value) := Text.cutAt (.char '=') t
    names.filterMap fun (name, s) => if start.isPrefixOf name then some (s, value) else none
  | _ =>
    names.filterMap fun (name, s) =>
      if name = t.take 2 then some (s, valueBehind name (t.drop 2))
      else if t.isPrefixOf name then some (s, none)
      else none

/-- A word that starts with a dash and has more than one character. -/
def ofDashed (names : List (Text × Switch)) (t : Text) : Except Refusal Token :=
  let (name, value) := Text.cutAt (.char '=') t
  match names.lookup t, value.bind fun _ => names.lookup name with
  | some s, _ => .ok (.option s none)
  | none, some s => .ok (.option s (value.bind (valueBehind name)))
  | none, none =>
    match readings names t with
    | _ :: _ :: _ => .error .misused
    | [(s, v)] => .ok (.option s v)
    | [] => .ok (if isUnsignedNumber (t.drop 1) || t.elem (.char ' ') then .word t else .unknown)

/-- A word that is not behind a separator. -/
def ofText (names : List (Text × Switch)) (t : Text) : Except Refusal Token :=
  match t with
  | .char '-' :: _ :: _ => ofDashed names t
  | _ => .ok (.word t)

/-- The words of a command line, read each by itself. -/
def ofWords (names : List (Text × Switch)) : List Text → Except Refusal (List Token)
  | [] => .ok []
  | t :: ts =>
    if t = "--".toText then .ok (.separator :: ts.map .word)
    else do
      let token ← ofText names t
      return token :: (← ofWords names ts)

end Token

/-- What a command line says. -/
structure Arguments where
  /-- What to do. -/
  command : Command
  /-- The file. -/
  file : Option Text := none
  /-- The file of the configuration. -/
  config : Option Text := none
  /-- The toolchain. -/
  toolchain : Option Text := none
  /-- The file of fragments. -/
  fragments : Option Text := none
  /-- The directory of backups. -/
  backupDir : Option Text := none
  /-- How many backups are kept; the option may be there without a number. -/
  retention : Option (Option Int) := none
  /-- Version values to use in place of others, as they were written; the option may be there
  without one. -/
  settings : List (Option Text) := []
  /-- The platform. -/
  platform : Option Text := none
  /-- Whether to go on without a backup if nothing is removed. -/
  bestEffortBackup : Bool := false
  /-- Whether nothing is to be written. -/
  dryRun : Bool := false
  deriving DecidableEq, Repr

namespace Arguments

/-- The arguments with an option that takes no value. -/
def withFlag (a : Arguments) : Switch → Arguments
  | .bestEffortBackup => { a with bestEffortBackup := true }
  | .dryRun => { a with dryRun := true }
  | _ => a

/-- The arguments with the value of an option, or with no value for it. A text that is not given
is taken to be empty. -/
def withValue (a : Arguments) (value : Option Text) : Switch → Except Refusal Arguments
  | .config => .ok { a with config := some (value.getD []) }
  | .toolchain => .ok { a with toolchain := some (value.getD []) }
  | .fragments => .ok { a with fragments := some (value.getD []) }
  | .backupDir => .ok { a with backupDir := some (value.getD []) }
  | .retention =>
    match value.map Text.toInt? with
    | some none => .error .misused
    | some (some n) => .ok { a with retention := some (some n) }
    | none => .ok { a with retention := some none }
  | .set => .ok { a with settings := a.settings ++ [value] }
  | .platform => .ok { a with platform := some (value.getD []) }
  | .help | .bestEffortBackup | .dryRun => .ok a

/-- The arguments with a file, if there is none yet. -/
def withFile (a : Arguments) (t : Text) : Arguments :=
  { a with file := a.file.or (some t) }

/-- The value after an equals sign, if it is not two dashes. -/
def given? (value : Text) : Option Text :=
  if value = "--".toText then none else some value

/-- The arguments that tokens add to some, if there were or were not words so far that have no
place. Two dashes may stand once before or behind the file. -/
def ofTokens (excess : Bool) (a : Arguments) : List Token → Except Refusal Arguments
  | [] => if excess then .error .misused else .ok a
  | .word t :: .separator :: rest => ofTokens (excess || a.file.isSome) (a.withFile t) rest
  | .word t :: rest => ofTokens (excess || a.file.isSome) (a.withFile t) rest
  | .separator :: rest => ofTokens (excess || a.file.isSome) a rest
  | .unknown :: rest => ofTokens true a rest
  | .option .help none :: _ => .error (.helpWanted a.command)
  | .option s (some value) :: rest =>
    if s.takesValue then do ofTokens excess (← a.withValue (given? value) s) rest
    else .error .misused
  | .option s none :: .word value :: rest =>
    if s.takesValue then do ofTokens excess (← a.withValue (some value) s) rest
    else ofTokens excess (a.withFlag s) (.word value :: rest)
  | .option s none :: rest =>
    if s.takesValue then .error .misused else ofTokens excess (a.withFlag s) rest
termination_by tokens => tokens.length

/-- The arguments that words give, if there were or were not words so far that have no place. -/
def ofWordsAfter (excess : Bool) : List Text → Except Refusal Arguments
  | [] => .error .misused
  | t :: ts =>
    match Command.ofName? t with
    | some command => do
      ofTokens excess { command } (← Token.ofWords (Switch.names command) ts)
    | none =>
      if t = "--".toText then .error .misused
      else
        match Token.ofText Switch.general t with
        | .ok (.option .help none) => .error (.helpWanted none)
        | .ok .unknown => ofWordsAfter true ts
        | _ => .error .misused

/-- The arguments that the words of a command line give, the first of them the command. -/
def ofWords (words : List Text) : Except Refusal Arguments :=
  ofWordsAfter false words

end Arguments

end CommandLine

end Graft
