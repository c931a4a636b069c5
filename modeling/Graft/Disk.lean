import Graft.Disk.Node

/-!
# A disk

A disk is what stands at the locations of a tree of files, and a working directory. Its operations
are those of a file system, seen from a program: each follows a path, does one change or refuses
with an `OsError`, and leaves everything else as it is. `Disk.at?` is the view in which this is
stated (`at?_put_self`, `at?_put_of_ne`, `at?_erase_self`, `at?_erase_of_ne`).

A path is followed name by name. Every name but the last has to be that of a directory that lets
names be looked up, and two dots lead to the directory that holds the one reached. What else may be
done is up to the permission bits (`Mode`) of the file, or of the directory that holds the entry.

A directory that is removed while the user is in it is not gone for the user: the way up still leads
out of it, but nothing is in it and nothing can be put there. It is kept under an empty name, which
no path can write (`isDetached`).

There are no links: what stands at a location is a file or a directory, and is found there alone.
Two spellings of one name, by halves that stand for the bytes of a character and by that character,
are two names.
-/

namespace Graft

/-- Why the file system refuses a call. -/
inductive OsError where
  /-- Nothing is there. -/
  | missing (path : Path)
  /-- A name on the way is not that of a directory. -/
  | notDirectory (path : Path)
  /-- A directory is there. -/
  | isDirectory (path : Path)
  /-- Something is there already. -/
  | alreadyExists (path : Path)
  /-- The permission bits do not allow the call. -/
  | denied (path : Path)
  /-- A directory with entries is there. -/
  | notEmpty (path : Path)
  /-- A name, or the path as a whole, is longer than a file system keeps. -/
  | nameTooLong (path : Path)
  /-- The call makes no sense for this path. -/
  | invalid (path : Path)
  /-- The path does not end in the name of an entry that could be given to another. -/
  | busy (path : Path)
  /-- The path holds the null character. -/
  | nullCharacter
  /-- The path holds code points that cannot be written. -/
  | unencodable (error : Unencodable)
  /-- The working directory was removed, so that no path from it names a location. -/
  | noWorkingDirectory
  /-- More directories are missing than are made for one path. -/
  | tooDeep
  /-- The file system refuses for reasons of its own. -/
  | refused (reason : Text)
  deriving DecidableEq, Repr

namespace OsError

/-- A numbered reason and the path it is about. -/
def numbered (number : Nat) (reason : String) (path : Path) : Text :=
  "[Errno ".toText ++ Text.ofNat number ++ "] ".toText ++ reason.toText ++ ": '".toText ++
    path.toText ++ [.char '\'']

/-- The refusal in words. -/
def message : OsError → Text
  | missing p => numbered 2 "No such file or directory" p
  | notDirectory p => numbered 20 "Not a directory" p
  | isDirectory p => numbered 21 "Is a directory" p
  | alreadyExists p => numbered 17 "File exists" p
  | denied p => numbered 13 "Permission denied" p
  | notEmpty p => numbered 39 "Directory not empty" p
  | nameTooLong p => numbered 36 "File name too long" p
  | invalid p => numbered 22 "Invalid argument" p
  | busy p => numbered 16 "Device or resource busy" p
  | nullCharacter => "embedded null byte".toText
  | unencodable e => e.message
  | noWorkingDirectory => "[Errno 2] No such file or directory".toText
  | tooDeep => "too many directories are missing".toText
  | refused reason => reason

end OsError

/-- What stands at the locations of a tree of files, and a working directory. -/
structure Disk where
  /-- The nodes, each under its location. Without an entry the root is a new directory. -/
  nodes : Nodes
  /-- The working directory. -/
  here : Location

namespace Disk

/-- The most bytes that a name may have. -/
def maxName : Nat := 255

/-- What stands at a location. -/
def at? (d : Disk) (l : Location) : Option Node :=
  match d.nodes.find? (.of l) with
  | some node => some node
  | none => if l = [] then some (.directory Mode.newDirectory) else none

/-- The disk with a node put at a location. -/
def put (d : Disk) (l : Location) (node : Node) : Disk :=
  { d with nodes := d.nodes.put (.of l) node }

/-- The disk with nothing at a location. -/
def erase (d : Disk) (l : Location) : Disk :=
  { d with nodes := d.nodes.erase (.of l) }

/-- The most bytes that a path may have. -/
def maxPath : Nat := 4095

/-- Whether a text has more bytes than a limit. -/
def exceeds (limit : Nat) (t : Text) : Bool :=
  limit < t.nameSize

/-- Why no file system takes a path, if none does. -/
def refusal? (path : Path) : Option OsError :=
  match path.unencodable? with
  | some e => some (.unencodable e)
  | none => if path.hasNull then some .nullCharacter else none

/-- Lets names be looked up at a location. -/
def enter (d : Disk) (path : Path) (l : Location) : Except OsError Unit :=
  match d.at? l with
  | none => .error (.missing path)
  | some (.file _) => .error (.notDirectory path)
  | some (.directory mode) => if mode.grants .search then .ok () else .error (.denied path)

/-- The location that names lead to from one; the last of them need not be there. -/
def follow (d : Disk) (path : Path) : Location → List Text → Except OsError Location
  | l, [] => .ok l
  | l, part :: rest =>
    match d.enter path l with
    | .error e => .error e
    | .ok () =>
      if exceeds maxName part then .error (.nameTooLong path)
      else follow d path (Path.step l part) rest

/-- The location that a path leads to. The working directory is itself looked up in itself. -/
def locate (d : Disk) (path : Path) : Except OsError Location :=
  match refusal? path with
  | some e => .error e
  | none =>
    if exceeds maxPath path.toText then .error (.nameTooLong path)
    else if path.start = .here then do
      d.enter path d.here
      d.follow path d.here path.parts
    else d.follow path [] path.parts

/-- What a path leads to, if there is anything, or why the file system does not tell: a name that no
directory could hold, or a directory that does not let names be looked up. -/
def look (d : Disk) (path : Path) : Except OsError (Option Node) :=
  match d.locate path with
  | .ok l => .ok (d.at? l)
  | .error (.nameTooLong p) => .error (.nameTooLong p)
  | .error (.denied p) => .error (.denied p)
  | .error _ => .ok none

/-- Whether a location is at or below a directory that was removed. -/
def isDetached (l : Location) : Bool :=
  l.any (·.isEmpty)

/-- The location that a path names by its names alone. -/
def resolve (d : Disk) (path : Path) : Except OsError Location :=
  match refusal? path with
  | some e => .error e
  | none =>
    if path.start = .here && isDetached d.here then .error .noWorkingDirectory
    else .ok (path.location d.here)

/-- What a path leads to, if there is anything. -/
def node? (d : Disk) (path : Path) : Option Node :=
  match d.locate path with
  | .ok l => d.at? l
  | .error _ => none

/-- Whether a path leads to anything. -/
def isPresent (d : Disk) (path : Path) : Bool :=
  (d.node? path).isSome

/-- Whether a path leads to a directory. -/
def isDirectory (d : Disk) (path : Path) : Bool :=
  d.node? path matches some (.directory _)

/-- Whether a path leads to a regular file. -/
def isFile (d : Disk) (path : Path) : Bool :=
  d.node? path matches some (.file _)

/-- The regular file that a path leads to, if it can be read. -/
def fileAt (d : Disk) (path : Path) : Except OsError File := do
  match d.at? (← d.locate path) with
  | none => .error (.missing path)
  | some (.directory _) => .error (.isDirectory path)
  | some (.file f) => if f.mode.grants .read then return f else .error (.denied path)

/-- A file that is seen can be read if its permission bits allow it. -/
theorem fileAt_of_look {d : Disk} {path : Path} {f : File}
    (h : d.look path = .ok (some (.file f))) :
    d.fileAt path = if f.mode.grants .read then .ok f else .error (.denied path) := by
  unfold look at h
  split at h <;> simp_all [fileAt, bind, Except.bind, pure, Except.pure]

/-- The location of the directory that a path leads to, if its entries can be listed. -/
def openDirectory (d : Disk) (path : Path) : Except OsError Location := do
  let l ← d.locate path
  match d.at? l with
  | none => .error (.missing path)
  | some (.file _) => .error (.notDirectory path)
  | some (.directory mode) =>
    if !mode.grants .read then .error (.denied path)
    else if isDetached l then .error (.missing path)
    else return l

/-- The names in a directory. -/
def entries (d : Disk) (l : Location) : List Text :=
  d.nodes.filterMap fun (key, _) =>
    if key.depth = l.length + 1 ∧ key.location.dropLast = l then
      key.location.getLast?.filter (!·.isEmpty)
    else none

/-- The permission bits of the directory that holds a location, if its entries can be changed. -/
def holder (d : Disk) (path : Path) (l : Location) : Except OsError Mode :=
  match d.at? l.dropLast with
  | none => .error (.missing path)
  | some (.file _) => .error (.notDirectory path)
  | some (.directory mode) =>
    if !mode.grants .write then .error (.denied path)
    else if isDetached l then .error (.missing path)
    else .ok mode

/-- A new file with some bytes where there is nothing. -/
def createFile (d : Disk) (path : Path) (content : ByteArray) : Except OsError Disk := do
  let l ← d.locate path
  match d.at? l with
  | some _ => .error (.alreadyExists path)
  | none =>
    let _ ← d.holder path l
    return d.put l (.file ⟨content, Mode.newFile⟩)

/-- Some bytes in a file, new or not. -/
def writeFile (d : Disk) (path : Path) (content : ByteArray) : Except OsError Disk := do
  let l ← d.locate path
  match d.at? l with
  | some (.directory _) => .error (.isDirectory path)
  | some (.file f) =>
    if f.mode.grants .write then return d.put l (.file ⟨content, f.mode.afterWrite⟩)
    else .error (.denied path)
  | none =>
    let _ ← d.holder path l
    return d.put l (.file ⟨content, Mode.newFile⟩)

/-- Other permission bits for what a path leads to. -/
def setMode (d : Disk) (path : Path) (mode : Nat) : Except OsError Disk := do
  let l ← d.locate path
  match d.at? l with
  | none => .error (.missing path)
  | some (.directory _) => return d.put l (.directory (.ofNat mode))
  | some (.file f) => return d.put l (.file { f with mode := .ofNat mode })

/-- A new directory where there is nothing. -/
def makeDirectory (d : Disk) (path : Path) : Except OsError Disk := do
  let l ← d.locate path
  match d.at? l with
  | some _ => .error (.alreadyExists path)
  | none => return d.put l (.directory (.madeIn (← d.holder path l)))

/-- The disk on which a path leads to a directory, made if the one above it is there. -/
def ensureDirectory (d : Disk) (path : Path) : Disk × Except OsError Unit :=
  match d.makeDirectory path with
  | .ok d' => (d', .ok ())
  | .error e => (d, if d.isDirectory path then .ok () else .error e)

/-- The most directories above another that are made for it. -/
def maxMissing : Nat := 985

/-- The disk on which the path of some names, the last of them first, leads to a directory. At most
`limit` of those above are made, and only when the last one cannot be made without. What was made
before a refusal stays. -/
def makeNames (start : Path.Start) (limit : Nat) : List Text → Disk → Disk × Except OsError Unit
  | [], d => d.ensureDirectory ⟨start, []⟩
  | name :: above, d =>
    let path : Path := ⟨start, (name :: above).reverse⟩
    match d.makeDirectory path, limit with
    | .error (.missing _), 0 => (d, .error .tooDeep)
    | .error (.missing _), limit + 1 =>
      match makeNames start limit above d with
      | (d', .ok ()) => d'.ensureDirectory path
      | (d', .error e) => (d', .error e)
    | _, _ => d.ensureDirectory path

/-- The disk on which a path leads to a directory, made with those above it if need be. -/
def makePath (d : Disk) (path : Path) : Disk × Except OsError Unit :=
  makeNames path.start maxMissing path.parts.reverse d

/-- The disk without the file that a path leads to. -/
def removeFile (d : Disk) (path : Path) : Except OsError Disk := do
  let l ← d.locate path
  match d.at? l with
  | none => .error (.missing path)
  | some node =>
    let _ ← d.holder path l
    match node with
    | .directory _ => .error (.isDirectory path)
    | .file _ => return d.erase l

/-- Where a location is after what is at and below one location was moved to another. -/
def moved (old new l : Location) : Location :=
  if old.isPrefixOf l then new ++ l.drop old.length else l

/-- The disk with everything at and below one location moved to another, the user with it. -/
def move (d : Disk) (old new : Location) : Disk :=
  ⟨d.nodes.map fun (key, node) => (.of (moved old new key.location), node), moved old new d.here⟩

/-- What one path leads to under another name. A file replaces a file, a directory an empty one. -/
def rename (d : Disk) (source target : Path) : Except OsError Disk := do
  let old ← d.locate source
  let new ← d.locate target
  if !(source.isEntry && target.isEntry) then .error (.busy target)
  else match d.at? old with
  | none => .error (.missing source)
  | some node =>
    if old = new then return d
    else if old.isPrefixOf new then .error (.invalid target)
    else
      let _ ← d.holder source old
      let _ ← d.holder target new
      match node, d.at? new with
      | .file _, some (.directory _) => .error (.isDirectory target)
      | .file f, _ => return (d.erase old).put new (.file f)
      | .directory _, some (.file _) => .error (.notDirectory target)
      | .directory _, some (.directory _) =>
        if (d.entries new).isEmpty then return (d.erase new).move old new
        else .error (.notEmpty target)
      | .directory _, none => return d.move old new

section Frame

variable (d : Disk) (l : Location) (node : Node)

/-- What was put at a location is there. -/
theorem at?_put_self : (d.put l node).at? l = some node := by
  simp [at?, put, Nodes.find?_put_self]

/-- Putting something at one location leaves every other one as it is. -/
theorem at?_put_of_ne {l k : Location} (h : k ≠ l) : (d.put l node).at? k = d.at? k := by
  simp only [at?, put, Nodes.find?_put_of_ne (fun he => h (Key.of_inj.1 he))]

/-- What was erased is gone. -/
theorem at?_erase_self (h : l ≠ []) : (d.erase l).at? l = none := by
  simp only [at?, erase, Nodes.find?_erase_self, if_neg h]

/-- Erasing one location leaves every other one as it is. -/
theorem at?_erase_of_ne {l k : Location} (h : k ≠ l) : (d.erase l).at? k = d.at? k := by
  simp only [at?, erase, Nodes.find?_erase_of_ne (fun he => h (Key.of_inj.1 he))]

end Frame

end Disk

end Graft
