/-!
# Permission bits

What may be done with a file or a directory is up to its permission bits. Whatever is on a disk is
taken to belong to the user at work, so that the owner's bits decide (`Mode.grants`). Neither making
a directory in another nor writing to a file takes a right from the user (`Mode.grants_madeIn`,
`Mode.grants_afterWrite`), nor does taking over the bits of another file (`Mode.grants_ofNat`).
-/

namespace Graft

/-- The permission bits of a file or a directory. -/
abbrev Mode := Nat

/-- What a permission bit can grant. -/
inductive Right where
  /-- To read a file, or to list the names in a directory. -/
  | read
  /-- To write to a file, or to put names into a directory and take them out. -/
  | write
  /-- To look up names in a directory. -/
  | search
  deriving DecidableEq, Repr

/-- The place of the owner's bit for a right. -/
def Right.bit : Right → Nat
  | read => 8
  | write => 7
  | search => 6

namespace Mode

/-- The bits of a new file. -/
def newFile : Mode := 0o644

/-- The bits of a new directory. -/
def newDirectory : Mode := 0o755

/-- Whether the bits grant a right to the owner. -/
def grants (m : Mode) (r : Right) : Bool :=
  Nat.testBit m r.bit

/-- The part of a number that a file system keeps as permission bits. -/
def ofNat (n : Nat) : Mode :=
  n &&& 0o7777

/-- The bits of a new directory in another. Only the bit by which a directory passes its group on is
passed on itself. -/
def madeIn (parent : Mode) : Mode :=
  newDirectory ||| (parent &&& 0o2000)

/-- The bits of a file that was written to. The bit that makes a program run as the owner is lost,
and the one that makes it run as the group is lost if the group can run it. -/
def afterWrite (m : Mode) : Mode :=
  if Nat.testBit m 3 then m &&& 0o1777 else m &&& 0o3777

/-- A new file can be read and written to. -/
theorem grants_newFile (r : Right) : newFile.grants r = decide (r ≠ .search) := by
  cases r <;> decide

/-- A new directory can be used without restrictions. -/
theorem grants_newDirectory (r : Right) : newDirectory.grants r = true := by
  cases r <;> decide

/-- So can one that is made in another directory. -/
theorem grants_madeIn (parent : Mode) (r : Right) : (madeIn parent).grants r = true := by
  have h : Nat.testBit newDirectory r.bit = true := grants_newDirectory r
  simp [grants, madeIn, Nat.testBit_or, h]

/-- Writing to a file does not change what the owner may do with it. -/
theorem grants_afterWrite (m : Mode) (r : Right) : (afterWrite m).grants r = m.grants r := by
  have h₁ : Nat.testBit 0o1777 r.bit = true := by cases r <;> decide
  have h₃ : Nat.testBit 0o3777 r.bit = true := by cases r <;> decide
  unfold afterWrite grants
  split <;> simp [Nat.testBit_and, h₁, h₃]

/-- What a file system keeps of a number grants what the number does. -/
theorem grants_ofNat (n : Nat) (r : Right) : (ofNat n).grants r = grants n r := by
  have h : Nat.testBit 0o7777 r.bit = true := by cases r <;> decide
  simp [grants, ofNat, Nat.testBit_and, h]

end Mode

end Graft
