import PathRouter.Trie

/-!
Merging a path in one walk. The walk adds nodes, claims slots and collects the names as it goes
along, and only on the way learns whether the path is refused; what it has done by then stays done.
A walk that only checks adds and claims nothing, and ends where the path leaves the tree.
-/

namespace PathRouter

/-- One call: a path that is to be merged as a route, or only to be checked. -/
structure Insertion where
  path : Path
  index : Nat
  checkOnly : Bool := false
  deriving DecidableEq, Repr

namespace Trie

/-- Goes along the edge with the key, to a node without anything if there is none, does what is to
be done there, and puts the node in place, whether this has failed or not. -/
def below {α : Type} (key : Key) (action : EStateM TrieError Trie α) : EStateM TrieError Trie α :=
  fun trie =>
    let put (after : Trie) : Trie :=
      { after with root := { trie.root with children := trie.root.children.set key after.root } }
    match action.run { trie with root := (trie.root.children.get? key).getD {} } with
    | .ok a after => .ok a (put after)
    | .error e after => .error e (put after)

/-- Gives the node a slot, if the step that leads to it is named and the node has none, and returns
the name with the slot. -/
def claim (step : Step) : EStateM TrieError Trie (List (List Char × Nat)) := do
  let trie ← get
  let (root, slots) := trie.root.claimSlot step trie.slots
  set { root, slots : Trie }
  return (step.name?.bind fun name => root.slot.map (name, ·)).toList

/-- The walk along the steps of a path. The edges of a node are looked at only where the path leaves
the tree, and where it ends there must be no route yet. -/
def walk (index : Nat) (checkOnly : Bool) :
    List Step → EStateM TrieError Trie (List (List Char × Nat))
  | [] => do
    let trie ← get
    if trie.root.route.isSome then throw .conflict
    else if checkOnly then return []
    else
      set { trie with root := { trie.root with route := some index } }
      return []
  | step :: rest => do
    let edges := (← get).root.children
    let isNew := (edges.get? step.key).isNone
    if isNew && edges.refuses step.key then throw .conflict
    else if isNew && checkOnly then return []
    else below step.key do
      let name ← if checkOnly then pure [] else claim step
      return name ++ (← walk index checkOnly rest)

/-- Merges or checks a path in one walk, and returns the names of a merged path with their slots. -/
def place (insertion : Insertion) : EStateM TrieError Trie (List (List Char × Nat)) :=
  walk insertion.index insertion.checkOnly insertion.path.steps

end Trie

end PathRouter
