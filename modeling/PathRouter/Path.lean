/-!
Paths, as they are registered and as they are requested. A path is the list of its characters,
because every rule about paths reads them from the front, one at a time.
-/

namespace PathRouter

abbrev Path := List Char

namespace Path

/-- The length of a path in UTF-8 bytes. It decides which of two paths is the longer one. -/
def byteLength : Path → Nat
  | [] => 0
  | c :: rest => c.utf8Size + byteLength rest

def hasSlashColon : Path → Bool
  | [] => false
  | c :: rest => (c == '/' && rest.head? == some ':') || hasSlashColon rest

/-- A static path is looked up as it stands: it has neither a star nor a colon after a slash. -/
def isStatic (path : Path) : Bool := !path.contains '*' && !path.hasSlashColon

/-- A path that ends in a star registers middleware. -/
def isWildcard (path : Path) : Bool := path.getLast? == some '*'

/-- The path with `/*` read as `*`, its shorter spelling. -/
def canonical (path : Path) : Path := if path = ['/', '*'] then ['*'] else path

def splitTail? : Path → Option (Path × Path)
  | [] => none
  | c :: rest =>
    if c = '/' ∧ rest.head? = some '*' then some ([], rest.tail)
    else (splitTail? rest).map fun parts => (c :: parts.1, parts.2)

/-! ### Lengths -/

theorem byteLength_append (front back : Path) :
    (front ++ back).byteLength = front.byteLength + back.byteLength := by
  induction front with
  | nil => exact (Nat.zero_add _).symm
  | cons c rest ih => rw [List.cons_append, byteLength, byteLength, ih, Nat.add_assoc]

theorem byteLength_pos {path : Path} (h : path ≠ []) : 0 < path.byteLength := by
  cases path with
  | nil => exact absurd rfl h
  | cons c rest =>
      exact Nat.add_pos_left (Char.utf8Size_pos c) _

end Path

end PathRouter
