/-!
Finite maps that remember the order in which their keys were first set. Setting a present key
replaces its value and keeps its place, so a listing always follows first registration.
-/

namespace PathRouter

universe u v

/-- An insertion-ordered map; `entries` lists each key once. -/
structure OrderedMap (κ : Type u) (α : Type v) where
  entries : List (κ × α) := []
  deriving DecidableEq, Repr

namespace OrderedMap

variable {κ : Type u} {α : Type v}

def keys (m : OrderedMap κ α) : List κ := m.entries.map Prod.fst

def size (m : OrderedMap κ α) : Nat := m.entries.length

def isEmpty (m : OrderedMap κ α) : Bool := m.entries.isEmpty

def update (f : κ → α → α) (m : OrderedMap κ α) : OrderedMap κ α :=
  ⟨m.entries.map fun entry => (entry.1, f entry.1 entry.2)⟩

variable [DecidableEq κ]

def get? (m : OrderedMap κ α) (key : κ) : Option α := m.entries.lookup key

def contains (m : OrderedMap κ α) (key : κ) : Bool := (m.get? key).isSome

/-- The entries after `key` has been set: in its old place, or at the end. -/
def setEntry (key : κ) (value : α) : List (κ × α) → List (κ × α)
  | [] => [(key, value)]
  | entry :: rest =>
    if entry.1 = key then (key, value) :: rest else entry :: setEntry key value rest

def set (m : OrderedMap κ α) (key : κ) (value : α) : OrderedMap κ α :=
  ⟨setEntry key value m.entries⟩

def modify (m : OrderedMap κ α) (key : κ) (f : α → α) : OrderedMap κ α :=
  m.update fun k value => if k = key then f value else value

/-- Sets the pairs one after the other, so the last value of a key wins. -/
def ofList (pairs : List (κ × α)) : OrderedMap κ α :=
  pairs.foldl (fun m pair => m.set pair.1 pair.2) {}

/-! ### Keys -/

omit [DecidableEq κ] in
@[simp] theorem keys_update (f : κ → α → α) (m : OrderedMap κ α) : (m.update f).keys = m.keys := by
  simp [keys, update, Function.comp_def]

@[simp] theorem keys_modify (m : OrderedMap κ α) (key : κ) (f : α → α) :
    (m.modify key f).keys = m.keys :=
  keys_update _ m

theorem keys_setEntry (key : κ) (value : α) (entries : List (κ × α)) :
    (setEntry key value entries).map Prod.fst =
      if key ∈ entries.map Prod.fst then entries.map Prod.fst
      else entries.map Prod.fst ++ [key] := by
  induction entries with
  | nil => simp [setEntry]
  | cons entry rest ih =>
      by_cases h : entry.1 = key
      · simp [setEntry, h]
      · have h' : key ≠ entry.1 := fun e => h e.symm
        by_cases hmem : key ∈ rest.map Prod.fst <;> simp [setEntry, h, h', ih, hmem]

theorem keys_set (m : OrderedMap κ α) (key : κ) (value : α) :
    (m.set key value).keys = if key ∈ m.keys then m.keys else m.keys ++ [key] :=
  keys_setEntry key value m.entries

theorem nodup_keys_set {m : OrderedMap κ α} (h : m.keys.Nodup) (key : κ) (value : α) :
    (m.set key value).keys.Nodup := by
  rw [keys_set]
  split
  · exact h
  · next hmem =>
      refine List.nodup_append.2 ⟨h, by simp, fun a ha b hb e => hmem ?_⟩
      rw [← List.mem_singleton.1 hb, ← e]
      exact ha

/-! ### Values -/

theorem lookup_cons_eq_ite (key other : κ) (value : α) (entries : List (κ × α)) :
    ((key, value) :: entries).lookup other =
      if other = key then some value else entries.lookup other := by
  by_cases h : other = key
  · simp [h]
  · have hne : (other == key) = false := by simpa using h
    simp [List.lookup_cons, hne, h]

theorem lookup_setEntry (key other : κ) (value : α) (entries : List (κ × α)) :
    (setEntry key value entries).lookup other =
      if other = key then some value else entries.lookup other := by
  induction entries with
  | nil => exact lookup_cons_eq_ite key other value []
  | cons entry rest ih =>
      obtain ⟨k, old⟩ := entry
      by_cases hk : k = key
      · subst hk
        by_cases h : other = k <;> simp [setEntry, lookup_cons_eq_ite, h]
      · by_cases h : other = key
        · subst h
          simp [setEntry, hk, lookup_cons_eq_ite, ih]
          exact fun e => absurd e.symm hk
        · simp [setEntry, hk, lookup_cons_eq_ite, h, ih]

theorem get?_set (m : OrderedMap κ α) (key other : κ) (value : α) :
    (m.set key value).get? other = if other = key then some value else m.get? other :=
  lookup_setEntry key other value m.entries

theorem get?_update (f : κ → α → α) (m : OrderedMap κ α) (key : κ) :
    (m.update f).get? key = (m.get? key).map (f key) := by
  obtain ⟨entries⟩ := m
  simp only [get?, update]
  induction entries with
  | nil => rfl
  | cons entry rest ih =>
      obtain ⟨k, value⟩ := entry
      by_cases h : key = k
      · subst h
        simp
      · simp [lookup_cons_eq_ite, h, ih]

theorem get?_modify (m : OrderedMap κ α) (key other : κ) (f : α → α) :
    (m.modify key f).get? other = if other = key then (m.get? other).map f else m.get? other := by
  rw [modify, get?_update]
  by_cases h : other = key <;> simp [h]

theorem contains_iff_mem_keys (m : OrderedMap κ α) (key : κ) :
    m.contains key = true ↔ key ∈ m.keys := by
  obtain ⟨entries⟩ := m
  simp only [contains, get?, keys]
  induction entries with
  | nil => simp
  | cons entry rest ih =>
      obtain ⟨k, value⟩ := entry
      by_cases h : key = k
      · subst h
        simp
      · simp [lookup_cons_eq_ite, h, ih]

end OrderedMap

end PathRouter
