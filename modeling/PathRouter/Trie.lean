import PathRouter.Trie.Key

/-!
A tree that merges many paths, one edge per step. Below each node its edges are kept in the order of
their keys, each key at most once.
-/

namespace PathRouter

/-- The edges below a node, in the order of their keys, each with the node it leads to. A node holds
a slot, if its edge is captured for a parameter, and the index of the route that ends there. -/
inductive Forest
  | nil
  | node (key : Key) (slot route : Option Nat) (children siblings : Forest)
  deriving DecidableEq, Repr

structure Node where
  slot : Option Nat := none
  route : Option Nat := none
  children : Forest := .nil
  deriving DecidableEq, Repr

namespace Forest

def keys : Forest → List Key
  | .nil => []
  | .node key _ _ _ siblings => key :: siblings.keys

def get? : Forest → Key → Option Node
  | .nil, _ => none
  | .node key slot route children siblings, wanted =>
    if wanted = key then some { slot, route, children } else siblings.get? wanted

def set : Forest → Key → Node → Forest
  | .nil, wanted, new => .node wanted new.slot new.route new.children .nil
  | .node key slot route children siblings, wanted, new =>
    if wanted = key then .node key new.slot new.route new.children siblings
    else if wanted.rank < key.rank then
      .node wanted new.slot new.route new.children (.node key slot route children siblings)
    else .node key slot route children (siblings.set wanted new)

/-- Whether a new edge with this key is refused here. A pattern may not join edges that are literals
or labels, and a literal may not join a label. -/
def refuses (edges : Forest) (key : Key) : Bool :=
  if key.isLiteral then edges.keys.contains .label
  else edges.keys.any fun present => !present.isWildcard

@[simp] theorem get?_nil (key : Key) : nil.get? key = none := rfl

theorem get?_set (edges : Forest) (key other : Key) (new : Node) :
    (edges.set key new).get? other = if other = key then some new else edges.get? other := by
  induction edges with
  | nil => simp [set, get?]
  | node k slot route children siblings _ ih =>
      by_cases hk : key = k
      · subst hk
        by_cases h : other = key <;> simp [set, get?, h]
      · by_cases hlt : key.rank < k.rank
        · by_cases h : other = key <;> simp [set, get?, hk, hlt, h]
        · by_cases h : other = key
          · subst h
            simpa [set, get?, hk, hlt] using ih
          · simp [set, get?, hk, hlt, h, ih]

theorem get?_eq_none_iff (edges : Forest) (key : Key) :
    edges.get? key = none ↔ key ∉ edges.keys := by
  induction edges with
  | nil => simp [get?, keys]
  | node k slot route children siblings _ ih =>
      by_cases h : key = k <;> simp [get?, keys, h, ih]

end Forest

namespace Node

/-- Whether a path with these keys may end below the node: it stays in the tree up to the end of a
path that has no route yet, or leaves it by an edge that is not refused. -/
def admits : Node → List Key → Bool
  | node, [] => node.route.isNone
  | node, key :: rest =>
    match node.children.get? key with
    | some child => child.admits rest
    | none => !node.children.refuses key

/-- The tree with route `index` ending under these keys, and with all nodes on the way there. -/
def graft (index : Nat) : Node → List Key → Node
  | node, [] => { node with route := some index }
  | node, key :: rest =>
    let child := (node.children.get? key).getD {}
    { node with children := node.children.set key (child.graft index rest) }

/-- The node with a slot, if the step is named and the node has none. Slots are numbered in the
order in which they are given out, and `next` is the first free one. -/
def claimSlot (node : Node) (step : Step) (next : Nat) : Node × Nat :=
  if step.name?.isSome && node.slot.isNone then ({ node with slot := some next }, next + 1)
  else (node, next)

def claimSlots : Node → List Step → Nat → Node × Nat
  | node, [], next => (node, next)
  | node, step :: rest, next =>
    match node.children.get? step.key with
    | none => (node, next)
    | some child =>
      let (child, next) := child.claimSlot step next
      let (child, next) := child.claimSlots rest next
      ({ node with children := node.children.set step.key child }, next)

def bindings : Node → List Step → List (List Char × Nat)
  | _, [] => []
  | node, step :: rest =>
    match node.children.get? step.key with
    | none => []
    | some child =>
      ((step.name?.bind fun name => child.slot.map (name, ·)).toList) ++ child.bindings rest

end Node

inductive TrieError
  | conflict
  deriving DecidableEq, Repr

/-- A tree of routes, with the number of slots given out so far. -/
structure Trie where
  root : Node := {}
  slots : Nat := 0
  deriving DecidableEq, Repr

namespace Trie

def admits (trie : Trie) (path : Path) : Bool := trie.root.admits path.keys

def check (path : Path) : EStateM TrieError Trie Unit := do
  if (← get).admits path then pure () else throw .conflict

/-- Merges the path as route `index`, and returns its parameter names with their slots. A path that
is refused adds no node; the nodes it passes on the way to the conflict keep the slots that its
named steps claimed. -/
def insert (path : Path) (index : Nat) : EStateM TrieError Trie (List (List Char × Nat)) := do
  let trie ← get
  let admitted := trie.admits path
  let grown := if admitted then trie.root.graft index path.keys else trie.root
  let (root, slots) := grown.claimSlots path.steps trie.slots
  set { root, slots : Trie }
  if admitted then pure (root.bindings path.steps) else throw .conflict

end Trie

end PathRouter
