import PathRouter.Trie

/-!
The one pattern that stands for all routes of a trie. A route ends in an empty group behind the end
of the text; the ordinal of the group that takes part in a match tells the route. A node with a slot
captures what its edge reads, so routes that share the node share the group.
-/

namespace PathRouter

inductive Group
  /-- The end of the route with this index. -/
  | route (index : Nat)
  /-- The value of this slot. -/
  | slot (index : Nat)
  deriving DecidableEq, Repr

namespace Forest

def groups : Forest → List Group
  | .nil => []
  | .node _ slot route children siblings =>
    (slot.map Group.slot).toList ++ (route.map Group.route).toList
      ++ children.groups ++ siblings.groups

end Forest

/-- The end of a route: an empty group behind the end of the text. -/
def Pattern.terminal (ordinal : Nat) : Pattern := .seq .stop (.capture ordinal .empty)

def Pattern.endings (route : Option Nat) (next : Nat) : List Pattern :=
  (route.map fun _ => Pattern.terminal next).toList

def Pattern.branch : List Pattern → Pattern
  | p :: q :: ps => .group (.choice (p :: q :: ps))
  | ps => .choice ps

namespace Forest

def patterns : Forest → Nat → List Pattern
  | .nil, _ => []
  | .node key slot route children siblings, next =>
    let afterEdge := next + slot.toList.length
    let afterRoute := afterEdge + route.toList.length
    let edge := if slot.isSome then .capture next key.pattern else key.pattern
    let below := Pattern.branch (Pattern.endings route afterEdge ++ children.patterns afterRoute)
    .seq edge below :: siblings.patterns (afterRoute + children.groups.length)

end Forest

def trimEnd {α : Type} : List (Option α) → List (Option α)
  | [] => []
  | here :: rest =>
    match here, trimEnd rest with
    | none, [] => []
    | here, rest => here :: rest

/-- The compiled form of a trie: its pattern, if it has routes, what the groups stand for, and how
many slots there are. -/
structure Composite where
  pattern : Option Pattern
  groups : List Group
  slots : Nat
  deriving DecidableEq, Repr

namespace Composite

/-- The route of each ordinal, from zero to the last ordinal that has one. -/
def routeOf (composite : Composite) : List (Option Nat) :=
  trimEnd (none :: composite.groups.map fun
    | .route index => some index
    | .slot _ => none)

def ordinalOf? (composite : Composite) (slot : Nat) : Option Nat :=
  (composite.groups.idxOf? (.slot slot)).map (· + 1)

def slotOrdinals (composite : Composite) : List (Option Nat) :=
  (List.range composite.slots).map composite.ordinalOf?

end Composite

/-- The composite pattern of a trie; it matches whole texts only. -/
def Trie.composite (trie : Trie) : Composite :=
  let afterRoute := 1 + trie.root.route.toList.length
  let patterns := Pattern.endings trie.root.route 1 ++ trie.root.children.patterns afterRoute
  { pattern := if patterns.isEmpty then none else some (.seq .start (Pattern.branch patterns))
    groups := (trie.root.route.map Group.route).toList ++ trie.root.children.groups
    slots := trie.slots }

end PathRouter
