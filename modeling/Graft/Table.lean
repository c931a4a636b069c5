import Graft.Text.Basic

/-!
# Tables keyed by text

A table keeps its entries in the order in which their keys came first. `Table.put` replaces the
value of a key that is there and appends a new one otherwise, so that keys stay distinct
(`get?_put_self` and `get?_put_of_ne` say what a look-up sees afterwards).
-/

namespace Graft

/-- Entries under text keys, in the order in which the keys came first. -/
abbrev Table (α : Type) := List (Text × α)

namespace Table

variable {α : Type}

/-- The value under a key. -/
def get? (key : Text) : Table α → Option α
  | [] => none
  | (k, v) :: rest => if k = key then some v else get? key rest

/-- The table with `value` under `key`. -/
def put (key : Text) (value : α) : Table α → Table α
  | [] => [(key, value)]
  | (k, v) :: rest => if k = key then (k, value) :: rest else (k, v) :: put key value rest

/-- The table with the entries of `more` put into it one after the other. -/
def putAll (table more : Table α) : Table α :=
  more.foldl (fun t e => put e.1 e.2 t) table

/-- The table that entries written one after the other come to: a repeated key keeps its first
place and its last value. -/
def ofEntries (entries : List (Text × α)) : Table α :=
  putAll [] entries

/-- The keys in order. -/
def keys (table : Table α) : List Text :=
  table.map (·.1)

/-- Looking up the key just put finds the new value. -/
@[simp] theorem get?_put_self (key : Text) (value : α) (table : Table α) :
    get? key (put key value table) = some value := by
  induction table with
  | nil => simp [put, get?]
  | cons e rest ih =>
    unfold put
    split
    · next h => simp [get?, h]
    · next h => simp [get?, h, ih]

/-- Putting a key leaves every other key alone. -/
theorem get?_put_of_ne {key other : Text} (h : other ≠ key) (value : α) (table : Table α) :
    get? other (put key value table) = get? other table := by
  induction table with
  | nil => simp [put, get?, Ne.symm h]
  | cons e rest ih =>
    unfold put
    split
    · next hk =>
      subst hk
      simp [get?, Ne.symm h]
    · simp [get?, ih]

end Table

end Graft
