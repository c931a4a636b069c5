import Graft.CommandLine.Arguments
import Graft.Text.Fill

/-!
# Help

The pages that tell how the program and its commands are used. A page opens with what may be written
(`usage`) and lists words and options in one column and what they mean in another (`Entry.lines`).
What a page says of an option is read off the options that its command has (`Switch.names`), so that
no page can leave one out.
-/

namespace Graft

namespace CommandLine

/-- The word by which the program is called. -/
def applicationId : Text := "gradlepatch".toText

namespace Command

/-- What a command does, in a few words. -/
def summary : Command → Text
  | patch => "bring required fragments up to date".toText
  | check => "classify fragments without writing".toText
  | backups => "list retained snapshots".toText

end Command

namespace Switch

/-- What stands for the value of an option. -/
def placeholder? : Switch → Option Text
  | config => some "CONFIG".toText
  | toolchain => some "TOOLCHAIN".toText
  | fragments => some "FRAGMENTS".toText
  | backupDir => some "BACKUP_DIR".toText
  | retention => some "RETENTION".toText
  | set => some "KEY=VERSION".toText
  | platform => some "PLATFORM".toText
  | help | bestEffortBackup | dryRun => none

/-- What an option is for. -/
def meaning : Switch → Text
  | help => "show this help message and exit".toText
  | config => "JSON config (default: ProjectSettings/gradlepatch.json)".toText
  | toolchain => "version bundle to use (modern, legacy, ...)".toText
  | fragments => "fragment-set JSON file replacing the built-in fragments".toText
  | backupDir => "snapshot directory (default: ~/.gradlepatch/backups)".toText
  | retention => "number of snapshots kept per file".toText
  | set => "override one version".toText
  | platform => "active build platform; patching only happens for android".toText
  | bestEffortBackup => "patch even if the snapshot before adding fragments ".toText ++
      "fails (removals still need one)".toText
  | dryRun => "report what would change, write nothing".toText

/-- An option as it is written. -/
def written (name : Text) (s : Switch) : Text :=
  match placeholder? s with
  | some value => name ++ .char ' ' :: value
  | none => name

/-- An option takes a value exactly if something stands for it. -/
theorem isSome_placeholder? (s : Switch) : (placeholder? s).isSome = s.takesValue := by
  cases s <;> rfl

end Switch

namespace Help

/-- The most characters in a line of a page. -/
def width : Nat := 78

/-- Where the column of meanings starts. -/
def column : Nat := 24

/-- Something that may be written, and what it means. -/
structure Entry where
  /-- What may be written. -/
  name : Text
  /-- What it means; nothing if that is told elsewhere. -/
  meaning : Text := []

/-- A line after some blanks. -/
def indented (blanks : Nat) (line : Text) : Text :=
  List.replicate blanks (.char ' ') ++ line

/-- The lines of an entry. The meaning starts beside the name if two blanks fit between them. -/
def Entry.lines (e : Entry) : List Text :=
  let name := indented 2 e.name
  let words := (Text.split (.char ' ') e.meaning).filter (!·.isEmpty)
  match Text.fill (width - column) words with
  | [] => [name]
  | first :: rest =>
    if name.length + 2 ≤ column then
      (Text.padRight column (.char ' ') name ++ first) :: rest.map (indented column)
    else name :: (first :: rest).map (indented column)

/-- The lines that tell what may be written after some words: options, then other words. -/
def usage (start : Text) (options others : List Text) : List Text :=
  let start := "usage: ".toText ++ start ++ [.char ' ']
  let line := start ++ Text.join [.char ' '] (options ++ others)
  if line.length ≤ width then [line]
  else
    match Text.fill (width - start.length) options ++ Text.fill (width - start.length) others with
    | [] => [start]
    | first :: rest => (start ++ first) :: rest.map (indented start.length)

/-- The lines of a page from the usage and the entries on it. -/
def pageOf (usage : List Text) (words options : List Entry) : List Text :=
  usage ++ [[], "positional arguments:".toText] ++ words.flatMap Entry.lines ++
    [[], "options:".toText] ++ options.flatMap Entry.lines

/-- The entry of the option that asks for a page. -/
def help : Entry where
  name := Text.join ", ".toText (Switch.general.map (·.1))
  meaning := Switch.help.meaning

/-- A text in brackets, as what may be left out is written. -/
def bracketed (t : Text) : Text :=
  .char '[' :: t ++ [.char ']']

/-- The options of a command but the one that asks for a page, as they are written. -/
def optionsOf (command : Command) : List Entry :=
  (Switch.names command).filterMap fun (name, s) =>
    if s = .help then none else some ⟨s.written name, s.meaning⟩

/-- The page of a command. -/
def commandPage (command : Command) : List Text :=
  let file : Entry := ⟨"file".toText,
    "Gradle template (default: Assets/Plugins/Android/mainTemplate.gradle)".toText⟩
  let options := optionsOf command
  pageOf
    (usage (applicationId ++ .char ' ' :: command.name)
      (bracketed "-h".toText :: options.map (bracketed ·.name)) [bracketed file.name])
    [file] (help :: options)

/-- The page of the program. -/
def programPage : List Text :=
  let commands :=
    .char '\x7b' :: Text.join [.char ','] (Command.all.map Command.name) ++ [.char '\x7d']
  pageOf (usage applicationId [bracketed "-h".toText] [commands, "...".toText])
    (⟨commands, []⟩ :: Command.all.map fun c => ⟨indented 2 c.name, c.summary⟩) [help]

/-- The page of a command, or else of the program. -/
def page : Option Command → List Text
  | some command => commandPage command
  | none => programPage

end Help

end CommandLine

end Graft
