import PathRouter.OrderedMap

/-!
Ordered maps kept in columns: the keys and the values stand in two arrays, each value at the place
of its key, and an index leads from a key to its place. A lookup goes through the index, and a
listing puts the two arrays side by side.
-/

namespace PathRouter

structure Columns (κ α : Type) where
  keys : Array κ := #[]
  values : Array α := #[]
  index : OrderedMap κ Nat := {}
  deriving DecidableEq, Repr

namespace Columns

variable {κ α : Type}

def size (table : Columns κ α) : Nat := table.keys.size

def isEmpty (table : Columns κ α) : Bool := table.keys.isEmpty

/-- The keys beside the values. What has no counterpart is left out. -/
def entries (table : Columns κ α) : List (κ × α) := table.keys.toList.zip table.values.toList

def update (f : κ → α → α) (table : Columns κ α) : Columns κ α :=
  { table with
    values := table.values.mapIdx fun i value =>
      match table.keys[i]? with
      | some key => f key value
      | none => value }

variable [DecidableEq κ]

def get? (table : Columns κ α) (key : κ) : Option α := do
  let i ← table.index.get? key
  table.values[i]?

def modify (table : Columns κ α) (key : κ) (f : α → α) : Columns κ α :=
  match table.index.get? key with
  | some i => { table with values := table.values.modify i f }
  | none => table

/-- Writes a value at the place of its key, which is a new one behind all others if the index has
none. Fails if the index leads to a place where there is no value. -/
def put (table : Columns κ α) (key : κ) (value : α) : Option (Nat × Columns κ α) :=
  match table.index.get? key with
  | some i =>
    if h : i < table.values.size then some (i, { table with values := table.values.set i value })
    else none
  | none =>
    let i := table.keys.size
    some (i, {
      keys := table.keys.push key
      values := table.values.push value
      index := table.index.set key i })

def set (table : Columns κ α) (key : κ) (value : α) : Option (α × Columns κ α) := do
  let (i, after) ← table.put key value
  let stored ← after.values[i]?
  return (stored, after)

end Columns

end PathRouter
