import Graft.Proofs.Disk.Sparing
import Mathlib.Data.List.Nodup
import Mathlib.Data.List.Perm.Subperm

/-!
# What a directory lists

The names in a directory are read off the nodes on the disk, while everything else is told by
`Disk.at?`. The two views agree:

> `mem_entries_iff`: a directory lists the names under which there is something in it.

As long as no location has two nodes (`FiledOnce`), no name is listed twice (`nodup_entries`), and
among more names than there are nodes there is one under which there is nothing (`exists_free`).
Putting a node and erasing one keep it so, and with them the calls that write and remove files.
-/

namespace Graft

namespace Disk

variable {d d' : Disk} {p : Path} {l : Location} {node : Node} {name : Text}

/-! ## The names in a directory -/

theorem isSome_find?_iff {key : Key} {nodes : Nodes} :
    (nodes.find? key).isSome ↔ key ∈ nodes.map Prod.fst := by
  induction nodes with
  | nil => simp [Nodes.find?]
  | cons e rest ih =>
    obtain ⟨k, old⟩ := e
    unfold Nodes.find?
    split
    · next h => simp [h]
    · next h => simp [ih, Ne.symm h]

/-- The name that a node is listed under, if its key is that of an entry of the directory. -/
def listed? (l : Location) (key : Key) : Option Text :=
  if key.depth = l.length + 1 ∧ key.location.dropLast = l then
    key.location.getLast?.filter (!·.isEmpty)
  else none

theorem listed?_eq_some_iff {key : Key} :
    listed? l key = some name ↔ name ≠ [] ∧ key = .of (l ++ [name]) := by
  unfold listed?
  constructor
  · intro h
    split at h
    · next hkey =>
      obtain ⟨hlast, hname⟩ := Option.filter_eq_some_iff.1 h
      obtain ⟨init, hinit⟩ := List.getLast?_eq_some_iff.1 hlast
      obtain ⟨depth, location⟩ := key
      dsimp only at hkey hinit
      subst hinit
      rw [List.dropLast_concat] at hkey
      refine ⟨by simpa using hname, ?_⟩
      rw [Key.of, List.length_append, List.length_singleton, hkey.1, hkey.2]
    · cases h
  · rintro ⟨hname, rfl⟩
    rw [if_pos ⟨by simp [Key.of], by simp [Key.of]⟩]
    simp [Key.of, hname]

theorem entries_eq (d : Disk) (l : Location) :
    d.entries l = (d.nodes.map Prod.fst).filterMap (listed? l) := by
  rw [List.filterMap_map]
  rfl

/-- A directory lists the names under which there is something in it. -/
theorem mem_entries_iff : name ∈ d.entries l ↔ name ≠ [] ∧ (d.at? (l ++ [name])).isSome := by
  have hat : (d.at? (l ++ [name])).isSome ↔ Key.of (l ++ [name]) ∈ d.nodes.map Prod.fst := by
    rw [← isSome_find?_iff, at?]
    cases d.nodes.find? (Key.of (l ++ [name])) with
    | none => simp
    | some node => simp
  rw [hat, entries_eq, List.mem_filterMap]
  constructor
  · rintro ⟨key, hkey, hlisted⟩
    obtain ⟨hname, rfl⟩ := listed?_eq_some_iff.1 hlisted
    exact ⟨hname, hkey⟩
  · rintro ⟨hname, hkey⟩
    exact ⟨_, hkey, listed?_eq_some_iff.2 ⟨hname, rfl⟩⟩

/-! ## One node to a location -/

/-- No location has two nodes. -/
def FiledOnce (d : Disk) : Prop :=
  (d.nodes.map Prod.fst).Nodup

instance (d : Disk) : Decidable d.FiledOnce :=
  inferInstanceAs (Decidable (d.nodes.map Prod.fst).Nodup)

/-- No name is listed twice. -/
theorem FiledOnce.nodup_entries (h : d.FiledOnce) (l : Location) : (d.entries l).Nodup := by
  rw [entries_eq]
  refine List.Nodup.filterMap ?_ h
  intro key other name hkey hother
  rw [(listed?_eq_some_iff.1 hkey).2, (listed?_eq_some_iff.1 hother).2]

/-- Among more names than there are nodes there is one under which there is nothing. -/
theorem exists_free {names : Nat → Text} (hinj : Function.Injective names) (l : Location)
    (d : Disk) : ∃ n ≤ d.nodes.length, d.at? (l ++ [names n]) = none := by
  by_contra hnone
  push Not at hnone
  let keys := (List.range (d.nodes.length + 1)).map fun n => Key.of (l ++ [names n])
  have hnodup : keys.Nodup := by
    refine List.Nodup.map ?_ List.nodup_range
    intro m n hmn
    have hconcat := List.append_cancel_left (Key.of_inj.1 hmn)
    exact hinj (List.singleton_inj.1 hconcat)
  have hsub : keys ⊆ d.nodes.map Prod.fst := by
    intro key hkey
    obtain ⟨n, hn, rfl⟩ := List.mem_map.1 hkey
    have hat := hnone n (by have := List.mem_range.1 hn; omega)
    rw [← isSome_find?_iff]
    rw [at?] at hat
    cases hfind : d.nodes.find? (Key.of (l ++ [names n])) with
    | none => simp [hfind] at hat
    | some node => rfl
  have hlength := (List.subperm_of_subset hnodup hsub).length_le
  simp only [keys, List.length_map, List.length_range] at hlength
  omega

theorem map_fst_put (key : Key) (node : Node) (nodes : Nodes) :
    (nodes.put key node).map Prod.fst =
      if key ∈ nodes.map Prod.fst then nodes.map Prod.fst else nodes.map Prod.fst ++ [key] := by
  induction nodes with
  | nil => simp [Nodes.put]
  | cons e rest ih =>
    obtain ⟨k, old⟩ := e
    unfold Nodes.put
    split
    · next h => simp [h]
    · next h =>
      rw [List.map_cons, ih]
      by_cases hmem : key ∈ rest.map Prod.fst
      · simp [hmem]
      · rw [if_neg hmem, if_neg (by simpa [Ne.symm h] using hmem)]
        rfl

theorem FiledOnce.put (h : d.FiledOnce) (l : Location) (node : Node) :
    (d.put l node).FiledOnce := by
  unfold FiledOnce Disk.put
  rw [map_fst_put]
  split
  · exact h
  · next hnew =>
    rw [List.nodup_append]
    refine ⟨h, List.nodup_singleton _, ?_⟩
    rintro key hkey other hother rfl
    rw [List.mem_singleton.1 hother] at hkey
    exact hnew hkey

theorem FiledOnce.erase (h : d.FiledOnce) (l : Location) : (d.erase l).FiledOnce :=
  h.sublist (List.Sublist.map _ List.filter_sublist)

theorem FiledOnce.writeFile {content : ByteArray} (h : d.FiledOnce)
    (hw : d.writeFile p content = .ok d') : d'.FiledOnce := by
  obtain ⟨k, m, -, -, rfl⟩ := writeFile_eq_ok hw
  exact h.put _ _

theorem FiledOnce.setMode {mode : Nat} (h : d.FiledOnce) (hm : d.setMode p mode = .ok d') :
    d'.FiledOnce := by
  obtain ⟨k, -, hm⟩ := exists_of_bind_eq_ok hm
  split at hm
  · cases hm
  · cases hm
    exact h.put _ _
  · cases hm
    exact h.put _ _

end Disk

end Graft
