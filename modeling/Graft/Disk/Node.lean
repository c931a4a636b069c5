import Graft.Disk.Mode
import Graft.Disk.Path

/-!
# Nodes

What stands in a tree of files, and lists of nodes under the locations where they stand. A list
gives back what was put last under a key (`find?_put_self`, `find?_put_of_ne`).
-/

namespace Graft

/-- Bytes are told apart as core does it, whatever other instances are in scope. -/
instance decidableEqBytes : DecidableEq ByteArray := ByteArray.instDecidableEq

/-- A regular file. -/
structure File where
  /-- The bytes in it. -/
  content : ByteArray
  /-- Its permission bits. -/
  mode : Mode
  deriving DecidableEq

/-- What stands at a location. -/
inductive Node where
  /-- A directory and its permission bits. -/
  | directory (mode : Mode)
  /-- A regular file. -/
  | file (file : File)
  deriving DecidableEq

/-- What a node is filed under: its location, and before it the number of names in it, by which most
locations can be told apart without reading them. -/
structure Key where
  /-- The number of names in the location. -/
  depth : Nat
  /-- The location. -/
  location : Location
  deriving DecidableEq

/-- The key of a location. -/
def Key.of (l : Location) : Key :=
  ⟨l.length, l⟩

/-- Two locations with one key are the same. -/
theorem Key.of_inj {l k : Location} : Key.of l = Key.of k ↔ l = k :=
  ⟨congrArg Key.location, congrArg Key.of⟩

/-- Nodes, each under the key of its location. -/
abbrev Nodes := List (Key × Node)

namespace Nodes

/-- The nodes at some locations. -/
def ofList (nodes : List (Location × Node)) : Nodes :=
  nodes.map fun (l, node) => (.of l, node)

/-- The nodes with their locations. -/
def toList (nodes : Nodes) : List (Location × Node) :=
  nodes.map fun (key, node) => (key.location, node)

/-- The node under a key. -/
def find? (key : Key) : Nodes → Option Node
  | [] => none
  | (k, node) :: rest => if k = key then some node else find? key rest

/-- The nodes with one put under a key. -/
def put (key : Key) (node : Node) : Nodes → Nodes
  | [] => [(key, node)]
  | (k, old) :: rest => if k = key then (k, node) :: rest else (k, old) :: put key node rest

/-- The nodes but for one. -/
def erase (key : Key) (nodes : Nodes) : Nodes :=
  nodes.filter (·.1 ≠ key)

section

variable {key other : Key} {node : Node}

/-- What was put is there. -/
theorem find?_put_self (nodes : Nodes) : find? key (put key node nodes) = some node := by
  induction nodes with
  | nil => simp [put, find?]
  | cons e rest ih =>
    unfold put
    split
    · next h => simp [find?, h]
    · next h => simp [find?, h, ih]

/-- Putting a node leaves what is under other keys as it is. -/
theorem find?_put_of_ne (h : other ≠ key) (nodes : Nodes) :
    find? other (put key node nodes) = find? other nodes := by
  induction nodes with
  | nil => simp [put, find?, Ne.symm h]
  | cons e rest ih =>
    unfold put
    split
    · next hk =>
      subst hk
      simp [find?, Ne.symm h]
    · simp [find?, ih]

/-- A key under which there is no node. -/
theorem find?_eq_none {nodes : Nodes} (h : ∀ e ∈ nodes, e.1 ≠ key) : find? key nodes = none := by
  induction nodes with
  | nil => rfl
  | cons e rest ih =>
    simp [find?, h e List.mem_cons_self, ih fun x hx => h x (List.mem_cons_of_mem e hx)]

/-- Leaving out nodes under other keys does not change what is under a key. -/
theorem find?_filter_of_keeps {keep : Key × Node → Bool} (h : ∀ node, keep (key, node) = true)
    (nodes : Nodes) : find? key (nodes.filter keep) = find? key nodes := by
  induction nodes with
  | nil => rfl
  | cons e rest ih =>
    obtain ⟨k, node⟩ := e
    by_cases hk : k = key
    · subst hk
      simp [h node, find?]
    · by_cases hkeep : keep (k, node)
      · simp [hkeep, find?, hk, ih]
      · simp [hkeep, find?, hk, ih]

/-- What was erased is gone. -/
theorem find?_erase_self (nodes : Nodes) : find? key (erase key nodes) = none :=
  find?_eq_none fun e he => by simpa using (List.mem_filter.1 he).2

/-- Erasing a node leaves what is under other keys as it is. -/
theorem find?_erase_of_ne (h : other ≠ key) (nodes : Nodes) :
    find? other (erase key nodes) = find? other nodes :=
  find?_filter_of_keeps (fun _ => by simpa using h) nodes

end

end Nodes

end Graft
