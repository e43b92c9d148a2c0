import PathRouter.Pattern.Text
import PathRouter.Trie

/-!
Writing the pattern of a trie. The text is written from front to back, on a stack of tasks that are
left to do; so the depth of the tree, which follows the length of the longest path, is no matter.
The groups are counted as their brackets are written, and it is noted which ordinal belongs to which
route and to which slot.
-/

namespace PathRouter

def Key.text : Key → List Char
  | .literal c => Pattern.escape c
  | .label => ['[', '^', '/', ']', '+']
  | .tailWildcard => ['(', '?', ':', '|', '/', '.', '*', ')']
  | .onlyWildcard => ['.', '*']

def Forest.edges : Forest → List (Key × Node)
  | .nil => []
  | .node key slot route children siblings => (key, { slot, route, children }) :: siblings.edges

/-- The list with a value at the given place; it is filled up with `none` as far as needed. -/
def putAt {α : Type} (list : List (Option α)) (place : Nat) (a : α) : List (Option α) :=
  (list ++ List.replicate (place + 1 - list.length) none).set place (some a)

inductive Task
  /-- All that stands behind the edge to a node. -/
  | node (node : Node)
  /-- An edge, with a bar in front unless it is the first alternative, and what stands behind it. -/
  | edge (key : Key) (child : Node) (first : Bool)
  /-- The end of a bracket. -/
  | close
  deriving DecidableEq, Repr

/-- A text in the making: the tasks, the next one in front, the text so far, the number of groups
opened in it, the routes by their ordinals and the ordinals by their slots. -/
structure Emission where
  tasks : List Task
  text : List Char := []
  captures : Nat := 0
  routes : List (Option Nat) := []
  ordinals : List (Option Nat) := []
  deriving DecidableEq, Repr

namespace Emission

def push (emission : Emission) (task : Task) : Emission :=
  { emission with tasks := task :: emission.tasks }

def write (emission : Emission) (text : List Char) : Emission :=
  { emission with text := emission.text ++ text }

def countRoute (emission : Emission) (index : Nat) : Emission :=
  { emission with
    captures := emission.captures + 1
    routes := putAt emission.routes (emission.captures + 1) index }

def countSlot (emission : Emission) (slot : Nat) : Emission :=
  { emission with
    captures := emission.captures + 1
    ordinals := putAt emission.ordinals slot (emission.captures + 1) }

def writeEnd (route : Option Nat) (emission : Emission) : Emission :=
  match route with
  | some index => (emission.countRoute index).write ['$', '(', ')']
  | none => emission

def writeKey (key : Key) (slot : Option Nat) (emission : Emission) : Emission :=
  match slot with
  | some slot => (((emission.countSlot slot).write ['(']).write key.text).write [')']
  | none => emission.write key.text

/-- Puts the edges on the stack, from the last one to the first, so that they are taken off in their
order. Only the one in place zero may be the first alternative. -/
def pushEdges (edges : List ((Key × Node) × Nat)) (first : Bool) (emission : Emission) : Emission :=
  edges.foldr (fun edge emission => emission.push (.edge edge.1.1 edge.1.2 (first && edge.2 == 0)))
    emission

/-- Writes what a node starts with: a bracket, if there are several alternatives, and the end of its
route. Its edges are left to do. -/
def emitNode (node : Node) (emission : Emission) : Emission :=
  let alternatives := node.children.edges.length + node.route.toList.length
  if alternatives = 0 then emission
  else
    let opened :=
      if 1 < alternatives then (emission.write ['(', '?', ':']).push .close else emission
    (opened.writeEnd node.route).pushEdges node.children.edges.zipIdx node.route.isNone

def emitEdge (key : Key) (child : Node) (first : Bool) (emission : Emission) : Emission :=
  let barred := if first then emission else emission.write ['|']
  (barred.writeKey key child.slot).push (.node child)

def step (emission : Emission) : Emission :=
  match emission.tasks with
  | [] => emission
  | task :: rest =>
    match task with
    | .node node => { emission with tasks := rest }.emitNode node
    | .edge key child first => { emission with tasks := rest }.emitEdge key child first
    | .close => { emission with tasks := rest }.write [')']

end Emission

/-! ### The stack runs empty -/

/-- A bound on the work behind the edges of a forest. -/
def Forest.work : Forest → Nat
  | .nil => 0
  | .node _ _ _ children siblings => 3 + children.work + siblings.work

/-- A bound on the steps that a task takes, with the tasks it leaves. -/
def Task.work : Task → Nat
  | .node here => 2 + here.children.work
  | .edge _ child _ => 3 + child.children.work
  | .close => 1

namespace Emission

def work (emission : Emission) : Nat := emission.tasks.foldr (fun task n => task.work + n) 0

theorem work_push (emission : Emission) (task : Task) :
    (emission.push task).work = task.work + emission.work := rfl

theorem tasks_writeEnd (route : Option Nat) (emission : Emission) :
    (emission.writeEnd route).tasks = emission.tasks := by
  cases route <;> rfl

theorem tasks_writeKey (key : Key) (slot : Option Nat) (emission : Emission) :
    (emission.writeKey key slot).tasks = emission.tasks := by
  cases slot <;> rfl

theorem work_pushEdges (edges : Forest) (start : Nat) (first : Bool) (emission : Emission) :
    (emission.pushEdges (edges.edges.zipIdx start) first).work = edges.work + emission.work := by
  induction edges generalizing start with
  | nil => simp [pushEdges, Forest.edges, Forest.work]
  | node key slot route children siblings _ ih =>
      have hfirst : (emission.pushEdges
          ((Forest.node key slot route children siblings).edges.zipIdx start) first).work =
            3 + children.work +
              (emission.pushEdges (siblings.edges.zipIdx (start + 1)) first).work := rfl
      rw [hfirst, ih, Forest.work]
      omega

theorem work_emitNode_lt (node : Node) (emission : Emission) :
    (emission.emitNode node).work < (Task.node node).work + emission.work := by
  have hwork : (Task.node node).work = 2 + node.children.work := rfl
  rw [emitNode]
  split
  · omega
  · rw [work_pushEdges, work, tasks_writeEnd, ← work]
    split
    · have hopened : ((emission.write ['(', '?', ':']).push .close).work = 1 + emission.work := rfl
      omega
    · omega

theorem work_emitEdge_lt (key : Key) (child : Node) (first : Bool) (emission : Emission) :
    (emission.emitEdge key child first).work <
      (Task.edge key child first).work + emission.work := by
  have hbarred : (if first then emission else emission.write ['|']).tasks = emission.tasks := by
    cases first <;> rfl
  rw [emitEdge, work_push, work, tasks_writeKey, hbarred, ← work, Task.work, Task.work]
  omega

/-- Every task that is done makes the rest of the work less. -/
theorem work_step_lt {emission : Emission} (h : emission.tasks ≠ []) :
    emission.step.work < emission.work := by
  obtain ⟨tasks, text, captures, routes, ordinals⟩ := emission
  cases tasks with
  | nil => exact absurd rfl h
  | cons task rest =>
      cases task with
      | node node => exact work_emitNode_lt node _
      | edge key child first => exact work_emitEdge_lt key child first _
      | close => exact Nat.lt_add_of_pos_left Nat.zero_lt_one

def run (emission : Emission) : Emission :=
  if emission.tasks = [] then emission else emission.step.run
termination_by emission.work
decreasing_by exact work_step_lt ‹_›

end Emission

/-- The compiled form of a trie as it is handed on: the text of its pattern, if it has routes, the
routes by the ordinals of their groups, and the ordinals by their slots. -/
structure Compiled where
  text : Option (List Char)
  routes : List (Option Nat)
  ordinals : List (Option Nat)
  deriving DecidableEq, Repr

/-- Compiles a trie. The pattern matches from the start of a text; there is an ordinal, or none, for
every slot that was given out. -/
def Trie.compile (trie : Trie) : Compiled :=
  let done := Emission.run { tasks := [.node trie.root] }
  { text := if done.text.isEmpty then none else some ('^' :: done.text)
    routes := done.routes
    ordinals := done.ordinals ++ List.replicate (trie.slots - done.ordinals.length) none }

end PathRouter
