import PathRouter.RouteTable

/-!
The handlers of a match, taken from either end. The handlers themselves stay in the store of the
router; a view holds the positions that are still to come.
-/

namespace PathRouter

structure Handlers (α : Type) where
  store : Array α
  ids : Chain

namespace Handlers

variable {α : Type}

def next (handlers : Handlers α) : Option α × Handlers α :=
  match handlers.ids with
  | [] => (none, handlers)
  | id :: rest => (handlers.store[id]?, { handlers with ids := rest })

def nextBack (handlers : Handlers α) : Option α × Handlers α :=
  match handlers.ids.getLast? with
  | none => (none, handlers)
  | some id => (handlers.store[id]?, { handlers with ids := handlers.ids.dropLast })

/-- Skips `n` handlers at the front, as far as there are so many, and takes the next one. -/
def nth (handlers : Handlers α) (n : Nat) : Option α × Handlers α :=
  { handlers with ids := handlers.ids.drop n }.next

def size (handlers : Handlers α) : Nat := handlers.ids.length

def sizeHint (handlers : Handlers α) : Nat × Nat := (handlers.size, handlers.size)

def toList (handlers : Handlers α) : List α := handlers.ids.filterMap (handlers.store[·]?)

/-- The handlers still to come, in brackets and separated by commas. -/
def display (write : α → String) (handlers : Handlers α) : String :=
  "[" ++ ", ".intercalate (handlers.toList.map write) ++ "]"

end Handlers

end PathRouter
