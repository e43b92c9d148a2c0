/-!
Rows: one value or nothing for each position of a text, the end included. A row is what matching has
to say about all positions at once. Each operation is pinned down by its effect on `entry`.
-/

namespace PathRouter

/-- One entry for each position of a text, the end included. -/
abbrev Row (β : Type) := List (Option β)

namespace Row

variable {β : Type}

def entry (row : Row β) (i : Nat) : Option β := row[i]?.join

def first (row : Row β) : Option β := row.head?.join

def readOne (inClass : Char → Bool) : List Char → Row β → Row β
  | c :: text, _ :: row => (if inClass c then first row else none) :: readOne inClass text row
  | _, _ => [none]

/-- Any number of characters of the class, as many as possible, then what the row holds. -/
def readMany (inClass : Char → Bool) : List Char → Row β → Row β
  | c :: text, here :: row =>
    let later := readMany inClass text row
    ((if inClass c then first later else none) <|> here) :: later
  | _, row => row

def atStart : Row β → Row β
  | here :: row => here :: row.map fun _ => none
  | [] => []

def atStop : Row β → Row β
  | [] => []
  | here :: row => (if row.isEmpty then here else none) :: atStop row

def mapAt (f : Nat → β → β) (row : Row β) : Row β := row.mapIdx fun i here => here.map (f i)

/-- The first row's entry where it has one, else the second's. -/
def orElse (row other : Row β) : Row β := List.zipWith (fun a b => a <|> b) row other

@[simp] theorem entry_zero (row : Row β) : entry row 0 = first row := by
  cases row <;> rfl

@[simp] theorem entry_cons_succ (here : Option β) (row : Row β) (i : Nat) :
    entry (here :: row) (i + 1) = entry row i := rfl

@[simp] theorem first_cons (here : Option β) (row : Row β) : first (here :: row) = here := rfl

@[simp] theorem entry_nil (i : Nat) : entry ([] : Row β) i = none := rfl

theorem length_readOne (inClass : Char → Bool) {text : List Char} {row : Row β}
    (h : row.length = text.length + 1) : (readOne inClass text row).length = text.length + 1 := by
  induction text generalizing row with
  | nil => rfl
  | cons c text ih =>
      cases row with
      | nil => simp at h
      | cons here row => simpa [readOne] using ih (by simpa using h)

theorem entry_readOne (inClass : Char → Bool) {text : List Char} {row : Row β}
    (h : row.length = text.length + 1) (i : Nat) :
    entry (readOne inClass text row) i =
      if text[i]?.any inClass then entry row (i + 1) else none := by
  induction text generalizing row i with
  | nil => cases i <;> simp [readOne, entry]
  | cons c text ih =>
      cases row with
      | nil => simp at h
      | cons here row =>
          cases i with
          | zero => simp [readOne]
          | succ i => simpa [readOne] using ih (by simpa using h) i

theorem length_readMany (inClass : Char → Bool) {text : List Char} {row : Row β}
    (h : row.length = text.length + 1) : (readMany inClass text row).length = text.length + 1 := by
  induction text generalizing row with
  | nil => simpa [readMany] using h
  | cons c text ih =>
      cases row with
      | nil => simp at h
      | cons here row => simpa [readMany] using ih (by simpa using h)

theorem entry_readMany (inClass : Char → Bool) {text : List Char} {row : Row β}
    (h : row.length = text.length + 1) (i : Nat) :
    entry (readMany inClass text row) i =
      ((if text[i]?.any inClass then entry (readMany inClass text row) (i + 1) else none)
        <|> entry row i) := by
  induction text generalizing row i with
  | nil => simp [readMany]
  | cons c text ih =>
      cases row with
      | nil => simp at h
      | cons here row =>
          cases i with
          | zero => simp [readMany]
          | succ i => simpa [readMany] using ih (by simpa using h) i

theorem length_atStart (row : Row β) : (atStart row).length = row.length := by
  cases row <;> simp [atStart]

theorem entry_atStart (row : Row β) (i : Nat) :
    entry (atStart row) i = if i = 0 then entry row i else none := by
  cases row with
  | nil => simp [atStart]
  | cons here row =>
      cases i with
      | zero => simp [atStart]
      | succ i =>
          simp only [atStart, entry, List.getElem?_cons_succ, List.getElem?_map]
          cases row[i]? <;> rfl

theorem length_atStop (row : Row β) : (atStop row).length = row.length := by
  induction row with
  | nil => rfl
  | cons here row ih => simp [atStop, ih]

theorem entry_atStop (row : Row β) (i : Nat) :
    entry (atStop row) i = if i + 1 = row.length then entry row i else none := by
  induction row generalizing i with
  | nil => simp [atStop]
  | cons here row ih =>
      cases i with
      | zero => cases row <;> simp [atStop]
      | succ i => simp [atStop, ih i]

theorem length_mapAt (f : Nat → β → β) (row : Row β) : (mapAt f row).length = row.length := by
  simp [mapAt]

theorem entry_mapAt (f : Nat → β → β) (row : Row β) (i : Nat) :
    entry (mapAt f row) i = (entry row i).map (f i) := by
  cases h : row[i]? <;> simp [entry, mapAt, h]

theorem length_orElse {row other : Row β} (h : row.length = other.length) :
    (orElse row other).length = row.length := by
  simp [orElse, h]

theorem entry_orElse {row other : Row β} (h : row.length = other.length) (i : Nat) :
    entry (orElse row other) i = (entry row i <|> entry other i) := by
  induction row generalizing other i with
  | nil =>
      cases other with
      | nil => simp [orElse]
      | cons there other => simp at h
  | cons here row ih =>
      cases other with
      | nil => simp at h
      | cons there other =>
          cases i with
          | zero => simp [orElse]
          | succ i => simpa [orElse] using ih (by simpa using h) i

end Row

end PathRouter
