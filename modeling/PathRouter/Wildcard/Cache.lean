import PathRouter.RouteTable
import PathRouter.Wildcard

/-!
Wildcards that have been compiled before, and the search for the closest middleware that covers a
path.
-/

namespace PathRouter

abbrev WildcardCache := OrderedMap Path Wildcard

namespace WildcardCache

variable [SizeRule]

/-- The wildcard of a path, compiled at first use. A path that fails is not remembered. -/
def wildcard (path : Path) : EStateM RouterError WildcardCache Wildcard := do
  match (← get).get? path with
  | some known => pure known
  | none =>
    match Wildcard.ofPath path with
    | .ok new =>
      modify (·.set path new)
      pure new
    | .error e => throw e

def firstCovering (path : Path) :
    List (Path × Chain) → EStateM RouterError WildcardCache (Option Chain)
  | [] => pure none
  | (key, chain) :: rest => do
    if (← wildcard key).covers path then pure (some chain) else firstCovering path rest

/-- The entries of a table, longest path first; paths of one length keep their order. -/
def longestFirst (table : RouteTable) : List (Path × Chain) :=
  table.entries.mergeSort fun a b => decide (b.1.byteLength ≤ a.1.byteLength)

def findMiddleware (middleware : RouteTable) (path : Path) :
    EStateM RouterError WildcardCache (Option Chain) :=
  firstCovering path (longestFirst middleware)

end WildcardCache

end PathRouter
