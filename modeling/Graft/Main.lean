import Graft.CommandLine.Interests
import Graft.Disk.Changes

/-!
# The program

The program looks at what a command line is about, runs it on a disk of what it saw, and carries the
changes out. A file is written under another name first and then given its own, so that it is never
seen half written.
-/

namespace Graft

namespace Program

/-- A text as it is shown. A half of a surrogate pair is shown as U+FFFD. -/
def string (t : Text) : String :=
  String.ofList (t.map fun c => c.char?.getD '\ufffd')

/-- The path of a location as the system takes it. No name with a half is passed on. -/
def pathString (l : Location) : IO String := do
  let path := (Path.ofLocation l).toText
  if Encoding.utf8.writes path then return string path
  else throw (IO.userError ("no such name: " ++ string path))

/-- The names in a directory, if there is one at a location. -/
def listDirectory (l : Location) : IO (Option (List Text)) := do
  try
    let entries ← ((← IO.currentDir) / (← pathString l)).readDir
    return some (entries.toList.map fun e => e.fileName.toText)
  catch _ => return none

/-- The bytes of a file, if there is one at a location. -/
def readBytes (l : Location) : IO (Option ByteArray) := do
  try return some (← IO.FS.readBinFile (← pathString l))
  catch _ => return none

/-- The disk with the file at a location, if there is one. -/
def lookAtFile (d : Disk) (l : Location) : IO Disk := do
  match ← readBytes l with
  | some content => return d.put l (.file ⟨content, Mode.newFile⟩)
  | none => return d

/-- The disk with what is at the locations above one. -/
def lookAbove (d : Disk) (l : Location) : IO Disk :=
  (Project.ancestors l.dropLast).reverse.foldlM
    (fun d above => do
      if above.isEmpty then return d
      match ← listDirectory above with
      | some _ => return d.put above (.directory Mode.newDirectory)
      | none => lookAtFile d above) d

/-- The disk with what a path leads to: a file, or a directory with the files in it. -/
def lookAt (d : Disk) (path : Path) : IO Disk := do
  let l := path.location d.here
  if l.isEmpty then return d
  let d ← lookAbove d l
  match ← listDirectory l with
  | some names =>
    names.foldlM (fun d name => do
      let inside := l ++ [name]
      match ← listDirectory inside with
      | some _ => return d.put inside (.directory Mode.newDirectory)
      | none => lookAtFile d inside) (d.put l (.directory Mode.newDirectory))
  | none => lookAtFile d l

/-- The disk with everything that a command line is about. -/
def survey (env : Environment) (words : List Text) (d : Disk) : IO Disk :=
  (List.range CommandLine.rounds).foldlM
    (fun d _ => (CommandLine.interests env words d).foldlM lookAt d) d

/-- Carries out a change. -/
def carryOut (token : Text) : Change → IO Unit
  | .makeDirectory l => do IO.FS.createDir (← pathString l)
  | .removeFile l => do IO.FS.removeFile (← pathString l)
  | .writeFile l content => do
    let path ← pathString l
    let temp := path ++ "." ++ string (Commit.tempMark ++ .char '.' :: token)
    IO.FS.writeBinFile temp content
    IO.FS.rename temp path

/-- What surrounds the program. -/
def environment : IO Environment := do
  let names := [Environment.rootVariable, Environment.backupVariable,
    Environment.toolchainVariable, Environment.retentionVariable]
  let values ← names.filterMapM fun name => do
    return (← IO.getEnv (string name)).map fun value => (name, value.toText)
  let users ← try pure (← IO.FS.lines "/etc/passwd").toList catch _ => pure []
  let home := ((← IO.getEnv "HOME").map String.toText).getD [.char '/']
  return ⟨values, home, Environment.usersOf (users.map String.toText)⟩

/-- The moment, as the file system gives it to a new file. -/
def now : IO Moment := do
  let (_, probe) ← IO.FS.createTempFile
  let time := (← probe.metadata).modified
  IO.FS.removeFile probe.toString
  return .ofEpoch (time.sec.toNat * 1000000 + time.nsec.toNat / 1000)

/-- Prints what the program has to say, and gives its status. -/
def conclude : CommandLine.Reply → IO UInt32
  | .ended status out err => do
    IO.print (string out)
    IO.eprint (string err)
    return status.toUInt32
  | .misused => do
    (CommandLine.Help.page none).forM fun line => IO.eprintln (string line)
    return 2

/-- Runs a command line. -/
def program (words : List Text) : IO UInt32 := do
  let env ← environment
  let here := (Path.ofText (← IO.currentDir).toString.toText).location []
  let token := Text.ofNat (← IO.rand 0 999999) ++ .char '.' :: Text.ofNat (← IO.monoNanosNow)
  let seen ← survey env words ⟨[], here⟩
  let (w, reply) := CommandLine.program env token words ⟨seen, ⟨← now, []⟩⟩
  (seen.changes w.disk).forM (carryOut token)
  match reply with
  | .error b =>
    IO.eprintln ("Error: " ++ string b.message)
    return 1
  | .ok reply => conclude reply

end Program

end Graft

/-- Runs the command line that the program is started with. -/
def main (args : List String) : IO UInt32 :=
  Graft.Program.program (args.map String.toText)
